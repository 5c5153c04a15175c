import QScope.CommandLine
import QScope.Proofs.FileSnapshots
import QScope.Proofs.ParsedTokens
import QScope.Proofs.PathNames
import QScope.Proofs.RulePasses

/-! # Lint verdicts: what linting a directory prints, and when it fails

The files are linted with one renderer and one count of findings, and still what is said of a file
depends on no other. -/
namespace QScope

/-! Findings that are errors -/

namespace Linting
open Annotating

section
variable {disabled : List Text} {tokens : List AnnotatedToken} {t : AnnotatedToken}
  {following : Option AnnotatedToken} {p : Problem} {f : Finding}

theorem mem_lint : f ∈ lint disabled tokens ↔ ∃ i : Nat, tokens[i]? = some f.token ∧
    f.problem ∈ problems tokens f.token tokens[i + 1]? ∧ f.problem.rule.code ∉ disabled := by
  rw [lint,List.mem_flatMap]
  constructor
  · rintro ⟨x,hx,hf⟩
    obtain ⟨p,hp,rfl⟩ := List.mem_map.mp hf
    obtain ⟨hp,hd⟩ := List.mem_filter.mp hp
    obtain ⟨i,hi⟩ := List.mem_iff_getElem?.mp hx
    rw [getElem?_followed] at hi
    obtain ⟨t,ht,rfl⟩ := Option.map_eq_some_iff.mp hi
    exact ⟨i,ht,hp,by simpa using hd⟩
  · rintro ⟨i,ht,hp,hd⟩
    refine ⟨(f.token,tokens[i + 1]?),?_,?_⟩
    · refine List.mem_of_getElem? (i := i) ?_
      rw [getElem?_followed,ht,Option.map_some]
    · exact List.mem_map.mpr ⟨f.problem,List.mem_filter.mpr ⟨hp,by simpa using hd⟩,rfl⟩

theorem token_mem_of_mem_lint (h : f ∈ lint disabled tokens) : f.token ∈ tokens := by
  obtain ⟨i,hi,-⟩ := mem_lint.mp h
  exact List.mem_of_getElem? hi

theorem severity_reservedNamespace? (h : reservedNamespace? t = some p) :
    p.severity = .warning := by
  rw [reservedNamespace?] at h
  split at h
  · split at h
    · split at h
      · obtain rfl := Option.some.inj h
        rfl
      · cases h
    · cases h
  · cases h

/-- What the rule on reserved names says of a token. -/
theorem mem_problems_assignReservedWord (hp : p.rule = .assignReservedWord) :
    p ∈ problems tokens t following ↔
      reservedWord? t following = some p ∨ reservedNamespace? t = some p := by
  have hlexical : t.error.map .lexical ≠ some p := fun h =>
    nomatch hp.symm.trans (rule_of_lexical h)
  have hescape : invalidEscape? t ≠ some p := fun h =>
    nomatch hp.symm.trans (rule_of_invalidEscape? h)
  have hdatetime : deprecatedDatetime? t ≠ some p := fun h =>
    nomatch hp.symm.trans (rule_of_deprecatedDatetime? h)
  have husage : usage? tokens t ≠ some p := fun h => by
    have hu := isUsage_of_usage? h
    rw [hp] at hu
    cases hu
  simp only [problems_eq,List.mem_append,Option.mem_toList,hlexical,hescape,hdatetime,husage,
    false_or,or_false]

/-- Only two rules can say that something is an error. -/
theorem rule_of_error (h : p.severity = .error) :
    p.rule = .lexerError ∨ p.rule = .assignReservedWord := by
  cases p with
  | lexical => exact .inl rfl
  | reservedWord => exact .inr rfl
  | _ => cases h

theorem severity_ne_error (hl : p.rule ≠ .lexerError) (ha : p.rule ≠ .assignReservedWord) :
    p.severity ≠ .error :=
  fun h => (rule_of_error h).elim hl ha

theorem not_exists_error {o : Option Problem} (h : ∀ p, o = some p → p.severity ≠ .error) :
    ¬∃ p ∈ o.toList, p.severity = .error :=
  fun ⟨p,hp,he⟩ => h p (Option.mem_toList.mp hp) he

/-- A token has a lexical error, or is a reserved word in front of a plain or double colon. -/
def IsErroneous (t : AnnotatedToken) (following : Option AnnotatedToken) : Prop :=
  t.error ≠ none ∨
    t.kind = .keyword ∧ ∃ u, following = some u ∧ (u.kind = .colon ∨ u.kind = .doubleColon)

theorem reservedWord?_ne_none : reservedWord? t following ≠ none ↔
    t.kind = .keyword ∧ ∃ u, following = some u ∧ (u.kind = .colon ∨ u.kind = .doubleColon) := by
  cases following <;> simp [reservedWord?,or_iff_not_imp_left]

theorem exists_error_iff : (∃ p ∈ problems tokens t following, p.severity = .error) ↔
    IsErroneous t following := by
  have hnamespace := not_exists_error (o := reservedNamespace? t) fun p h => by
    rw [severity_reservedNamespace? h]
    simp
  have hescape := not_exists_error (o := invalidEscape? t) fun p h => by
    refine severity_ne_error ?_ ?_ <;> simp [rule_of_invalidEscape? h]
  have hdatetime := not_exists_error (o := deprecatedDatetime? t) fun p h => by
    refine severity_ne_error ?_ ?_ <;> simp [rule_of_deprecatedDatetime? h]
  have husage := not_exists_error (o := usage? tokens t) fun p h => by
    have hu := isUsage_of_usage? h
    refine severity_ne_error ?_ ?_ <;> intro hr <;> rw [hr] at hu <;> cases hu
  have hlexical : (∃ p ∈ (t.error.map Problem.lexical).toList, p.severity = .error) ↔
      t.error ≠ none := by
    cases t.error <;> simp [Problem.severity]
  have hword : (∃ p ∈ (reservedWord? t following).toList, p.severity = .error) ↔
      reservedWord? t following ≠ none := by
    rw [reservedWord?]
    split <;> simp [Problem.severity]
  simp only [problems_eq,List.mem_append,or_and_right,exists_or]
  rw [hlexical,hword,reservedWord?_ne_none,IsErroneous]
  simp only [hnamespace,hescape,hdatetime,husage,or_false]

end
end Linting

/-! What one renderer writes about several files -/

namespace Renderer
variable {tree : FileTree}

theorem overlay_learnAll_ofFile (tree : FileTree) (r : Renderer) (d : Diagnostic) :
    (r.learnAll tree d).overlay (SourceLines.ofFile tree) =
      r.overlay (SourceLines.ofFile tree) := by
  funext name
  rw [overlay_learnAll,ite_self]

/-- While the files stay as they are, the diagnostics before one change nothing in it. -/
theorem renderAll_eq (tree : FileTree) (r : Renderer) (ds : List Diagnostic) :
    (r.renderAll tree ds).1 = ds.map ((r.overlay (SourceLines.ofFile tree)).write r.color) ∧
    (r.renderAll tree ds).2.overlay (SourceLines.ofFile tree) =
      r.overlay (SourceLines.ofFile tree) ∧
    (r.renderAll tree ds).2.color = r.color := by
  induction ds generalizing r with
  | nil => exact ⟨rfl,rfl,rfl⟩
  | cons d ds ih =>
    obtain ⟨htexts,hover,hcolor⟩ := ih (r.learnAll tree d)
    rw [overlay_learnAll_ofFile] at htexts hover
    rw [color_learnAll] at htexts hcolor
    refine ⟨?_,hover,hcolor⟩
    rw [renderAll,List.map_cons,write_learnAll,htexts]

end Renderer

namespace CommandLine
open Linting

/-- What is below a directory under a name that ends in `.q`. -/
def IsSource (tree : FileTree) (place p : Path) : Prop :=
  place <+: p ∧ p ≠ place ∧ (tree.entry? p).isSome ∧ p.getLast?.any isSourceName = true

/-- A file to lint: its path, the name it is read by and its content. -/
structure SourceFile where
  place : Path
  name : Text
  content : Text

namespace SourceFile

def tokens (f : SourceFile) : List AnnotatedToken :=
  Annotating.parse f.name (SourceLines.newlines f.content)

def lines (f : SourceFile) : List Text := SourceLines.lines (SourceLines.newlines f.content)

/-- The findings in a file by itself. -/
def findings (disabled : List Text) (f : SourceFile) : List Finding :=
  Linting.lint disabled f.tokens

/-- What is printed about a file, where no other file is known. -/
def shown (verbose color : Bool) (disabled : List Text) (f : SourceFile) : List Text :=
  logged verbose ("DEBUG qlang.cli: linting ".toList ++ f.name) ++
    (f.findings disabled).map fun g => Snapshot.write color (fun _ => f.lines) g.diagnostic

end SourceFile

/-- The number of findings in all files together. -/
def findingCount (disabled : List Text) : List SourceFile → Nat
  | [] => 0
  | f :: files => (f.findings disabled).length + findingCount disabled files

/-- Files that are all the sources below a directory, each named from the directory's name, in the
order of their paths. -/
structure Gathers (tree : FileTree) (name : PathName) (place : Path) (files : List SourceFile) :
    Prop where
  complete : ∀ p content, (∃ f ∈ files, f.place = p ∧ f.content = content) ↔
    IsSource tree place p ∧ tree.file? p = some content
  named : ∀ f ∈ files,
    f.name = PathName.toText {name with names := name.names ++ f.place.drop place.length}
  ordered : files.Pairwise fun f g => f.place.Before g.place

/-- A report on files of which each has been looked at by itself. -/
structure Judges (report : Report) (verbose color : Bool) (disabled : List Text)
    (files : List SourceFile) : Prop where
  exits : report.exit = 0 ∨ report.exit = 1
  fails : report.exit = 1 ↔ ∃ f ∈ files, ∃ g ∈ f.findings [],
    g.problem.severity = .error ∧ g.problem.rule.code ∉ disabled
  counts : report.out = printed [Texts.words ["linted".toList,Texts.decimal files.length,
    "file(s),".toList,Texts.decimal (findingCount disabled files),"finding(s)".toList]]
  shows : report.err = printed (files.flatMap (·.shown verbose color disabled))
  ordered : ∀ f ∈ files, (f.findings disabled).Pairwise fun g h => g.token.index < h.token.index ∨
    g.token.index = h.token.index ∧ g.problem.rule.rank < h.problem.rule.rank
  unmasked : Rule.lexerError.code ∉ disabled → Rule.assignReservedWord.code ∉ disabled →
    (report.exit = 1 ↔
      ∃ f ∈ files, ∃ i t, f.tokens[i]? = some t ∧ IsErroneous t f.tokens[i + 1]?)

section
variable {tree : FileTree} {verbose color : Bool} {disabled : List Text} {name : PathName}
  {place p : Path} {files : List SourceFile} {f : SourceFile}

theorem mem_sourcesBelow : p ∈ sourcesBelow tree place ↔ IsSource tree place p := by
  rw [sourcesBelow,List.mem_mergeSort,List.mem_filter,FileTree.mem_below,IsSource,and_assoc,
    and_assoc]

theorem sourcesBelow_ordered (tree : FileTree) (place : Path) :
    (sourcesBelow tree place).Pairwise Path.Before := by
  have hnodup : (sourcesBelow tree place).Nodup :=
    (List.mergeSort_perm _ _).nodup_iff.mpr ((FileTree.nodup_below tree place).filter _)
  have hsorted := List.pairwise_mergeSort Path.inOrder_trans Path.inOrder_total
    ((tree.below place).filter fun q => q.getLast?.any isSourceName)
  refine (hsorted.and hnodup).imp fun {p q} h => ?_
  exact ((Path.inOrder_iff p q).mp h.1).resolve_left h.2

/-- The source at a path, if it is a file. -/
def sourceAt (tree : FileTree) (name : PathName) (place p : Path) : SourceFile :=
  ⟨p,PathName.toText {name with names := name.names ++ p.drop place.length},
    (tree.file? p).getD []⟩

theorem gathers_sourcesBelow (hfiles : ∀ p, IsSource tree place p → (tree.file? p).isSome) :
    Gathers tree name place ((sourcesBelow tree place).map (sourceAt tree name place)) where
  complete p content := by
    constructor
    · rintro ⟨f,hf,rfl,rfl⟩
      obtain ⟨p,hp,rfl⟩ := List.mem_map.mp hf
      have hp := mem_sourcesBelow.mp hp
      obtain ⟨content,hc⟩ := Option.isSome_iff_exists.mp (hfiles p hp)
      refine ⟨hp,?_⟩
      change tree.file? p = some ((tree.file? p).getD [])
      rw [hc,Option.getD_some]
    · rintro ⟨hp,hc⟩
      refine ⟨_,List.mem_map_of_mem (mem_sourcesBelow.mpr hp),rfl,?_⟩
      rw [sourceAt,hc,Option.getD_some]
  named f hf := by
    obtain ⟨p,-,rfl⟩ := List.mem_map.mp hf
    rfl
  ordered := List.pairwise_map.mpr (sourcesBelow_ordered tree place)

/-- The name of a gathered file leads to its content. -/
theorem fileNamed?_of_gathers (hs : tree.Sound) (hn : name.IsShort)
    (hplace : name.locate? tree = some place) (h : Gathers tree name place files) (hf : f ∈ files) :
    tree.fileNamed? f.name = some f.content := by
  obtain ⟨⟨hbelow,-,hsome,-⟩,hfile⟩ := (h.complete f.place f.content).mp ⟨f,hf,rfl,rfl⟩
  have happend : place ++ f.place.drop place.length = f.place := List.prefix_iff_eq_append.mp hbelow
  rw [h.named f hf,hs.fileNamed?_below hn hplace (by rwa [happend]),happend,hfile]

theorem parseFile_of_fileNamed? (h : tree.fileNamed? f.name = some f.content) :
    parseFile tree f.name = some f.tokens := by
  rw [parseFile,h]
  rfl

theorem lintFiles_eq (h : ∀ f ∈ files, tree.fileNamed? f.name = some f.content) :
    lintFiles tree disabled (files.map (·.name)) =
      some (files.map fun f => ⟨f.name,f.findings disabled⟩) := by
  rw [lintFiles]
  induction files with
  | nil => rfl
  | cons f files ih =>
    obtain ⟨hf,h⟩ := List.forall_mem_cons.mp h
    rw [List.map_cons,List.mapM_cons,parseFile_of_fileNamed? hf,ih h]
    rfl

/-! What is printed, file by file -/

theorem lintLines_eq (tree : FileTree) (verbose : Bool) (r : Renderer)
    (results : List FileFindings) :
    lintLines tree verbose r results = results.flatMap fun f =>
      logged verbose ("DEBUG qlang.cli: linting ".toList ++ f.file) ++ f.findings.map fun g =>
        (r.overlay (SourceLines.ofFile tree)).write r.color g.diagnostic := by
  induction results generalizing r with
  | nil => rfl
  | cons f results ih =>
    obtain ⟨htexts,hover,hcolor⟩ := r.renderAll_eq tree (f.findings.map (·.diagnostic))
    rw [lintLines,ih,htexts,hover,hcolor,List.flatMap_cons,List.map_map]
    rfl

/-- A finding names the file that its token is in, and no other. -/
theorem files_of_finding {g : Finding} (h : g ∈ f.findings disabled) :
    g.diagnostic.files = [f.name] := by
  obtain ⟨s,-,hd⟩ := Annotating.exists_described (Lexing.tokenize_described f.name _)
    (Annotating.toToken_mem_tokenize (token_mem_of_mem_lint h))
  exact congrArg ([·]) hd.file

theorem write_finding (h : tree.fileNamed? f.name = some f.content) {g : Finding}
    (hg : g ∈ f.findings disabled) :
    Snapshot.write color (SourceLines.ofFile tree) g.diagnostic =
      Snapshot.write color (fun _ => f.lines) g.diagnostic := by
  refine Snapshot.write_congr fun name hn => ?_
  rw [files_of_finding hg,List.mem_singleton] at hn
  rw [hn,SourceLines.ofFile,h]
  rfl

theorem lintLines_start (h : ∀ f ∈ files, tree.fileNamed? f.name = some f.content) :
    lintLines tree verbose (.start color) (files.map fun f => ⟨f.name,f.findings disabled⟩) =
      files.flatMap (·.shown verbose color disabled) := by
  rw [lintLines_eq,List.flatMap_map]
  refine List.flatMap_congr fun f hf => congrArg (logged verbose _ ++ ·) ?_
  exact List.map_congr_left fun g hg => write_finding (h f hf) hg

/-! When linting fails -/

theorem isError_iff {g : Finding} : isError g = true ↔ g.problem.severity = .error := beq_iff_eq

theorem exists_error_of_findings : (∃ g ∈ f.findings disabled, g.problem.severity = .error) ↔
    ∃ g ∈ f.findings [], g.problem.severity = .error ∧ g.problem.rule.code ∉ disabled := by
  rw [SourceFile.findings,lint_eq_filter]
  simp only [List.mem_filter,SourceFile.findings,Bool.not_eq_true',List.contains_eq_mem,
    decide_eq_false_iff_not]
  exact exists_congr fun g => and_assoc.trans (and_congr_right fun _ => and_comm)

theorem exists_error_of_unmasked (hlexical : Rule.lexerError.code ∉ disabled)
    (hword : Rule.assignReservedWord.code ∉ disabled) :
    (∃ g ∈ f.findings [], g.problem.severity = .error ∧ g.problem.rule.code ∉ disabled) ↔
      ∃ i t, f.tokens[i]? = some t ∧ IsErroneous t f.tokens[i + 1]? := by
  constructor
  · rintro ⟨g,hg,he,-⟩
    obtain ⟨i,hi,hp,-⟩ := mem_lint.mp hg
    exact ⟨i,g.token,hi,exists_error_iff.mp ⟨g.problem,hp,he⟩⟩
  · rintro ⟨i,t,hi,he⟩
    obtain ⟨p,hp,he⟩ := exists_error_iff.mpr he
    refine ⟨⟨t,p⟩,mem_lint.mpr ⟨i,hi,hp,List.not_mem_nil⟩,he,?_⟩
    rcases rule_of_error he with hr | hr
    · exact hr ▸ hlexical
    · exact hr ▸ hword

theorem lintReport_exit (results : List FileFindings) :
    (lintReport tree verbose color results).exit = 1 ↔
      ∃ r ∈ results, ∃ g ∈ r.findings, g.problem.severity = .error := by
  rw [lintReport]
  simp [isError_iff]

theorem length_findings (disabled : List Text) (files : List SourceFile) :
    ((files.map fun f => (⟨f.name,f.findings disabled⟩ : FileFindings)).flatMap
      (·.findings)).length = findingCount disabled files := by
  induction files with
  | nil => rfl
  | cons f files ih =>
    rw [List.map_cons,List.flatMap_cons,List.length_append,ih]
    rfl

theorem lintReport_judges (h : ∀ f ∈ files, tree.fileNamed? f.name = some f.content) :
    Judges (lintReport tree verbose color (files.map fun f => ⟨f.name,f.findings disabled⟩)) verbose
      color disabled files := by
  have hfails : (lintReport tree verbose color
      (files.map fun f => ⟨f.name,f.findings disabled⟩)).exit = 1 ↔
        ∃ f ∈ files, ∃ g ∈ f.findings [],
          g.problem.severity = .error ∧ g.problem.rule.code ∉ disabled := by
    rw [lintReport_exit]
    simp only [List.mem_map,exists_exists_and_eq_and,exists_error_of_findings]
  refine ⟨?_,hfails,?_,?_,?_,fun hlexical hword => hfails.trans ?_⟩
  · rw [lintReport]
    dsimp only
    split
    · exact .inr rfl
    · exact .inl rfl
  · rw [lintReport,List.length_map,length_findings]
  · rw [lintReport,lintLines_start h]
  · exact fun f _ => lint_ordered (fun _ _ => Annotating.index_of_parse) disabled
  · simp only [exists_error_of_unmasked hlexical hword]

end

theorem ok_of_toOption {ε α : Type} {x : Except ε α} {a : α} (h : x.toOption = some a) :
    x = .ok a := by
  cases x with
  | error => cases h
  | ok b => rw [Option.some.inj h]

/-- Two sources with an error each: an open string and an assignment to a keyword. The rule on open
strings is disabled. -/
def openStringTree : FileTree where
  entries := [
    (["work","b","x.q"].map String.toList,.file "f:{[a]1}\nselect:2\n".toList),
    (["work","a.q"].map String.toList,.file "\"open".toList),
    (["qlang.toml"].map String.toList,.file "[lint]\ndisable=[\"LEXER_ERROR\"]\n".toList)]
  here := ["work".toList]

end CommandLine
end QScope
