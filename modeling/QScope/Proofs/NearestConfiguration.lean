import QScope.Configuration
import QScope.Proofs.PathNames
import Mathlib.Data.List.Induction
import Mathlib.Data.List.Infix

/-! # Nearest configuration: the first file on the way to the root decides alone

What it holds is either taken as it is or refused as a whole. A refusal never leads on to a file
farther away or back to the standard settings. -/
namespace QScope

/-- The directory that a place is in: the one around it if it is a file, or else itself. -/
def FileTree.directoryOf (tree : FileTree) (place : Path) : Path :=
  if (tree.file? place).isSome then place.dropLast else place

namespace Configuration
open Toml

/-! The way to the root -/

section
variable {tree : FileTree} {directory d e : Path}

/-- A directory with a configuration file in it. -/
def Configured (tree : FileTree) (d : Path) : Prop := (tree.entry? (d ++ [fileName])).isSome = true

instance (tree : FileTree) (d : Path) : Decidable (Configured tree d) :=
  inferInstanceAs (Decidable (_ = true))

/-- Nothing but a file has the name of a configuration file. -/
def FilesOnly (tree : FileTree) : Prop :=
  ∀ d : Path, tree.entry? (d ++ [fileName]) ≠ some .directory

theorem filesOnly_iff : FilesOnly tree ↔ ∀ p ∈ tree.paths, ∀ q ∈ p.inits,
    q.getLast? = some fileName → tree.entry? q ≠ some .directory := by
  constructor
  · rintro h p - q - hq
    obtain ⟨d,rfl⟩ := List.getLast?_eq_some_iff.mp hq
    exact h d
  · intro h d hd
    obtain ⟨p,hp,hbegin⟩ := FileTree.isSome_entry_iff.mp (Option.isSome_of_eq_some hd)
    exact h p hp _ ((List.mem_inits _ _).mpr hbegin) List.getLast?_concat hd

instance (tree : FileTree) : Decidable (FilesOnly tree) := decidable_of_iff' _ filesOnly_iff

/-- The nearest directory with a configuration file, among a directory and those around it. -/
structure IsNearest (tree : FileTree) (directory d : Path) : Prop where
  around : d <+: directory
  configured : Configured tree d
  nearest : ∀ e, e <+: directory → Configured tree e → e <+: d

/-- The search from a directory on. -/
def nearestFrom? (tree : FileTree) (directory : Path) : Option Path :=
  ((ancestors directory).map (· ++ [fileName])).find? fun p => (tree.entry? p).isSome

theorem nearest?_eq (tree : FileTree) (place : Path) :
    nearest? tree place = nearestFrom? tree (tree.directoryOf place) := rfl

theorem ancestors_concat (p : Path) (name : Text) :
    ancestors (p ++ [name]) = (p ++ [name]) :: ancestors p := by
  rw [ancestors,List.length_append,List.length_singleton,List.range_succ,List.reverse_append,
    List.reverse_singleton,List.singleton_append,List.map_cons,List.take_of_length_le (by simp)]
  refine congrArg (_ :: ·) (List.map_congr_left fun n hn => ?_)
  rw [List.mem_reverse,List.mem_range] at hn
  exact List.take_append_of_le_length (Nat.le_of_lt_succ hn)

/-- One step of the search: the directory itself, or else the one around it. -/
theorem nearestFrom?_concat (tree : FileTree) (p : Path) (name : Text) :
    nearestFrom? tree (p ++ [name]) =
      if (tree.entry? (p ++ [name] ++ [fileName])).isSome then some (p ++ [name] ++ [fileName])
      else nearestFrom? tree p := by
  rw [nearestFrom?,ancestors_concat,List.map_cons,List.find?_cons]
  split <;> simp_all [nearestFrom?]

/-- The search ends at the root, with the nearest configuration file if there is any. -/
theorem nearestFrom?_cases (tree : FileTree) (directory : Path) :
    (nearestFrom? tree directory = none ∧ ∀ d, d <+: directory → ¬Configured tree d) ∨
    ∃ d, nearestFrom? tree directory = some (d ++ [fileName]) ∧ IsNearest tree directory d := by
  induction directory using List.reverseRecOn with
  | nil =>
    have hroot : nearestFrom? tree [] =
        if (tree.entry? ([] ++ [fileName])).isSome then some ([] ++ [fileName]) else none := by
      rw [nearestFrom?,show ancestors [] = [[]] from rfl,List.map_singleton,List.find?_singleton]
    rw [hroot]
    split
    · rename_i h
      exact .inr ⟨_,rfl,List.prefix_rfl,h,fun e he _ => he⟩
    · rename_i h
      refine .inl ⟨rfl,fun d hd => ?_⟩
      rw [List.prefix_nil.mp hd]
      exact h
  | append_singleton p name ih =>
    rw [nearestFrom?_concat]
    split
    · rename_i h
      exact .inr ⟨_,rfl,List.prefix_rfl,h,fun e he _ => he⟩
    · rename_i h
      rcases ih with ⟨hnone,hfree⟩ | ⟨d,hsome,hd⟩
      · refine .inl ⟨hnone,fun d hd => ?_⟩
        rcases List.prefix_concat_iff.mp hd with rfl | hd
        · exact h
        · exact hfree d hd
      · refine .inr ⟨d,hsome,hd.around.trans (List.prefix_append p [name]),hd.configured,?_⟩
        intro e he hc
        rcases List.prefix_concat_iff.mp he with rfl | he
        · exact absurd hc h
        · exact hd.nearest e he hc

end

/-! The content of a file -/

section
variable {t u : Table} {key : String}

/-- The table of a key, which is empty where the key is absent. -/
def HasTable (t : Table) (key : String) (u : Table) : Prop :=
  t.lookup key.toList = some (.table u) ∨ t.lookup key.toList = none ∧ u = []

/-- A switch, which is off where its key is absent. -/
def HasSwitch (t : Table) (key : String) (on : Bool) : Prop :=
  t.lookup key.toList = some (.boolean on) ∨ t.lookup key.toList = none ∧ on = false

/-- The codes of disabled rules, all of them known, and none where the key is absent. -/
def HasRules (t : Table) (codes : List Text) : Prop :=
  (t.lookup "disable".toList = some (.array (codes.map .text)) ∧
    ∀ code ∈ codes, code ∈ Linting.Rule.all.map (·.code)) ∨
  t.lookup "disable".toList = none ∧ codes = []

/-- The settings in a table. -/
def HasSettings (t : Table) (settings : Settings) : Prop :=
  ∃ u, HasTable t "server" u ∧ HasSwitch u "debug" settings.debug ∧
    HasSwitch u "linting" settings.linting

/-- The configuration that a table describes. -/
structure Settles (t : Table) (c : Config) : Prop where
  server : HasSettings t c.server
  lint : ∃ u, HasTable t "lint" u ∧ HasRules u c.disable

/-- The values of a list that are not the code of a known rule. -/
def unknown (rules : List Value) : List Value := rules.filter fun v => (ruleCode? v).isNone

/-- The first fault of a table: the settings count before the rules, and a table before what is in
it. A fault names the key that it stands at. -/
inductive FirstFault (t : Table) : Fault → Prop
  | server {v : Value} (hv : t.lookup "server".toList = some v) (h : ∀ u, v ≠ .table u) :
      FirstFault t (.notTable "server".toList)
  | debug {u : Table} {v : Value} (hu : HasTable t "server" u)
      (hv : u.lookup "debug".toList = some v) (h : ∀ b, v ≠ .boolean b) :
      FirstFault t (.notBoolean "debug".toList)
  | linting {u : Table} {on : Bool} {v : Value} (hu : HasTable t "server" u)
      (hd : HasSwitch u "debug" on) (hv : u.lookup "linting".toList = some v)
      (h : ∀ b, v ≠ .boolean b) : FirstFault t (.notBoolean "linting".toList)
  | lint {settings : Settings} {v : Value} (hs : HasSettings t settings)
      (hv : t.lookup "lint".toList = some v) (h : ∀ u, v ≠ .table u) :
      FirstFault t (.notTable "lint".toList)
  | disable {settings : Settings} {u : Table} {v : Value} (hs : HasSettings t settings)
      (hu : HasTable t "lint" u) (hv : u.lookup "disable".toList = some v)
      (h : ∀ rules, v ≠ .array rules) : FirstFault t .notRuleList
  | rules {settings : Settings} {u : Table} {rules : List Value} (hs : HasSettings t settings)
      (hu : HasTable t "lint" u) (hv : u.lookup "disable".toList = some (.array rules))
      (h : unknown rules ≠ []) : FirstFault t (.unknownRules (unknown rules))

/-- What is in the way of saying what a fault is. -/
def Fault.obstacle? : Fault → Option Obstacle
  | unknownRules rules => rules.findSome? (Spelling.obstacle? Limits.shownLevels)
  | notToml | notTable _ | notBoolean _ | notRuleList => none

theorem subtable_eq_ok : subtable t key = .ok u ↔ HasTable t key u := by
  rw [subtable,HasTable]
  cases t.lookup key.toList with
  | none => simp [eq_comm]
  | some v => cases v <;> simp [eq_comm]

theorem subtable_eq_error {r : Rejection} (h : subtable t key = .error r) :
    ∃ v, r = .fault (.notTable key.toList) ∧ t.lookup key.toList = some v ∧
      ∀ u, v ≠ .table u := by
  rw [subtable] at h
  split at h
  · cases h
  · cases h
  · rename_i v hne hv
    cases h
    exact ⟨v,rfl,hv,hne⟩

theorem switch_eq_ok {on : Bool} : switch t key = .ok on ↔ HasSwitch t key on := by
  rw [switch,HasSwitch]
  cases t.lookup key.toList with
  | none => simp [eq_comm]
  | some v => cases v <;> simp [eq_comm]

theorem switch_eq_error {r : Rejection} (h : switch t key = .error r) :
    ∃ v, r = .fault (.notBoolean key.toList) ∧ t.lookup key.toList = some v ∧
      ∀ b, v ≠ .boolean b := by
  rw [switch] at h
  split at h
  · cases h
  · cases h
  · rename_i v hne hv
    cases h
    exact ⟨v,rfl,hv,hne⟩

theorem ruleCode?_eq_some {v : Value} {code : Text} :
    ruleCode? v = some code ↔ v = .text code ∧ code ∈ Linting.Rule.all.map (·.code) := by
  cases v with
  | text t =>
    simp only [ruleCode?,Option.ite_none_right_eq_some,List.contains_iff_mem,Option.some.injEq,
      Value.text.injEq]
    exact ⟨fun ⟨h,e⟩ => ⟨e,e ▸ h⟩,fun ⟨e,h⟩ => ⟨e ▸ h,e⟩⟩
  | _ => simp [ruleCode?]

/-- The values that are codes of known rules are taken, if all of them are. -/
theorem eq_map_text_iff {rules : List Value} {codes : List Text} :
    (rules = codes.map .text ∧ ∀ code ∈ codes, code ∈ Linting.Rule.all.map (·.code)) ↔
      unknown rules = [] ∧ rules.filterMap ruleCode? = codes := by
  induction rules generalizing codes with
  | nil =>
    cases codes with
    | nil => simp [unknown]
    | cons => simp
  | cons v rules ih =>
    cases hv : ruleCode? v with
    | none =>
      refine iff_of_false (fun h => ?_) (fun h => ?_)
      · cases codes with
        | nil => cases h.1
        | cons code codes =>
          have hcode := ruleCode?_eq_some.mpr ⟨(List.cons.inj h.1).1,h.2 code List.mem_cons_self⟩
          rw [hv] at hcode
          cases hcode
      · simp [unknown,hv] at h
    | some code =>
      obtain ⟨rfl,hcode⟩ := ruleCode?_eq_some.mp hv
      have hunknown : unknown (.text code :: rules) = unknown rules := by simp [unknown,hv]
      rw [hunknown,List.filterMap_cons_some hv]
      cases codes with
      | nil => simp
      | cons code' codes =>
        rw [List.map_cons,List.cons.injEq,Value.text.injEq,List.forall_mem_cons,List.cons.injEq]
        constructor
        · rintro ⟨⟨rfl,hrules⟩,-,hcodes⟩
          exact ⟨(ih.mp ⟨hrules,hcodes⟩).1,rfl,(ih.mp ⟨hrules,hcodes⟩).2⟩
        · rintro ⟨hrules,rfl,hcodes⟩
          obtain ⟨hrules,hcodes⟩ := ih.mpr ⟨hrules,hcodes⟩
          exact ⟨⟨rfl,hrules⟩,hcode,hcodes⟩

theorem disabledRules_eq_ok {codes : List Text} :
    disabledRules t = .ok codes ↔ HasRules t codes := by
  rw [disabledRules,HasRules]
  cases t.lookup "disable".toList with
  | none => simp [eq_comm]
  | some v =>
    cases v with
    | array rules =>
      have h : (rules = codes.map .text ∧ _) ↔ _ := eq_map_text_iff
      simp only [Option.some.injEq,Value.array.injEq,reduceCtorEq,false_and,or_false,h,unknown]
      split
      · rename_i hrules
        simp [hrules]
      · rename_i hrules
        exact iff_of_false nofun fun h => hrules h.1
    | _ => simp

/-- What is said of unknown rules, unless one of them cannot be shown. -/
theorem disabledRules_eq_error {r : Rejection} (h : disabledRules t = .error r) :
    (∃ v, r = .fault .notRuleList ∧ t.lookup "disable".toList = some v ∧
      ∀ rules, v ≠ .array rules) ∨
    ∃ rules, r = unknownRules (unknown rules) ∧ unknown rules ≠ [] ∧
      t.lookup "disable".toList = some (.array rules) := by
  rw [disabledRules] at h
  split at h
  · cases h
  · rename_i rules hv
    split at h
    · cases h
    · rename_i hne
      cases h
      exact .inr ⟨rules,rfl,hne,hv⟩
  · rename_i v hne hv
    cases h
    exact .inl ⟨v,rfl,hv,hne⟩

end

section
variable {t : Table} {c : Config} {r : Rejection} {content : Text}

theorem bind_eq_ok {ε α β : Type} {x : Except ε α} {f : α → Except ε β} {b : β} :
    x >>= f = .ok b ↔ ∃ a, x = .ok a ∧ f a = .ok b := by
  cases x with
  | error e => exact iff_of_false nofun fun ⟨_,h,_⟩ => nomatch h
  | ok a => exact ⟨fun h => ⟨a,rfl,h⟩,fun ⟨_,h,hf⟩ => Except.ok.inj h ▸ hf⟩

theorem bind_eq_error {ε α β : Type} {x : Except ε α} {f : α → Except ε β} {e : ε}
    (h : x >>= f = .error e) : x = .error e ∨ ∃ a, x = .ok a ∧ f a = .error e := by
  cases x with
  | error =>
    cases h
    exact .inl rfl
  | ok a => exact .inr ⟨a,rfl,h⟩

/-- A table gives exactly the configuration that it describes. -/
theorem ofTable_eq_ok : ofTable t = .ok c ↔ Settles t c := by
  constructor
  · intro h
    obtain ⟨server,hserver,h⟩ := bind_eq_ok.mp h
    obtain ⟨debug,hdebug,h⟩ := bind_eq_ok.mp h
    obtain ⟨linting,hlinting,h⟩ := bind_eq_ok.mp h
    obtain ⟨lint,hlint,h⟩ := bind_eq_ok.mp h
    obtain ⟨codes,hcodes,h⟩ := bind_eq_ok.mp h
    cases h
    exact ⟨⟨server,subtable_eq_ok.mp hserver,switch_eq_ok.mp hdebug,switch_eq_ok.mp hlinting⟩,
      lint,subtable_eq_ok.mp hlint,disabledRules_eq_ok.mp hcodes⟩
  · rintro ⟨⟨server,hserver,hdebug,hlinting⟩,lint,hlint,hcodes⟩
    refine bind_eq_ok.mpr ⟨server,subtable_eq_ok.mpr hserver,?_⟩
    refine bind_eq_ok.mpr ⟨_,switch_eq_ok.mpr hdebug,?_⟩
    refine bind_eq_ok.mpr ⟨_,switch_eq_ok.mpr hlinting,?_⟩
    refine bind_eq_ok.mpr ⟨lint,subtable_eq_ok.mpr hlint,?_⟩
    exact bind_eq_ok.mpr ⟨_,disabledRules_eq_ok.mpr hcodes,rfl⟩

/-- Why a text gives no configuration: it is malformed, its table has a fault, or it is too large to
be read or for its fault to be told. -/
inductive Refuses (content : Text) : Rejection → Prop
  | malformed (h : Reading.document content = .error .malformed) : Refuses content (.fault .notToml)
  | unread {o : Obstacle} (h : Reading.document content = .error (.obstructed o)) :
      Refuses content (.obstructed o)
  | faulty {t : Table} {f : Fault} (ht : Reading.document content = .ok t) (h : FirstFault t f)
      (hshown : f.obstacle? = none) : Refuses content (.fault f)
  | untold {t : Table} {f : Fault} {o : Obstacle} (ht : Reading.document content = .ok t)
      (h : FirstFault t f) (ho : f.obstacle? = some o) : Refuses content (.obstructed o)

theorem refuses_of_ofTable (ht : Reading.document content = .ok t) (h : ofTable t = .error r) :
    Refuses content r := by
  rcases bind_eq_error h with h | ⟨server,hserver,h⟩
  · obtain ⟨v,rfl,hv,hne⟩ := subtable_eq_error h
    exact .faulty ht (.server hv hne) rfl
  have hserver := subtable_eq_ok.mp hserver
  rcases bind_eq_error h with h | ⟨debug,hdebug,h⟩
  · obtain ⟨v,rfl,hv,hne⟩ := switch_eq_error h
    exact .faulty ht (.debug hserver hv hne) rfl
  have hdebug := switch_eq_ok.mp hdebug
  rcases bind_eq_error h with h | ⟨linting,hlinting,h⟩
  · obtain ⟨v,rfl,hv,hne⟩ := switch_eq_error h
    exact .faulty ht (.linting hserver hdebug hv hne) rfl
  have hsettings : HasSettings t ⟨debug,linting⟩ :=
    ⟨server,hserver,hdebug,switch_eq_ok.mp hlinting⟩
  rcases bind_eq_error h with h | ⟨lint,hlint,h⟩
  · obtain ⟨v,rfl,hv,hne⟩ := subtable_eq_error h
    exact .faulty ht (.lint hsettings hv hne) rfl
  have hlint := subtable_eq_ok.mp hlint
  rcases bind_eq_error h with h | ⟨codes,-,h⟩
  · obtain ⟨v,rfl,hv,hne⟩ | ⟨rules,rfl,hne,hv⟩ := disabledRules_eq_error h
    · exact .faulty ht (.disable hsettings hlint hv hne) rfl
    · have hfault := FirstFault.rules hsettings hlint hv hne
      rw [unknownRules]
      split
      · rename_i o ho
        exact .untold ht hfault ho
      · rename_i ho
        exact .faulty ht hfault ho
  · cases h

theorem ofText_eq_ok : ofText content = .ok c ↔
    ∃ t, Reading.document content = .ok t ∧ Settles t c := by
  rw [ofText]
  split
  · rename_i h
    simp [h]
  · rename_i h
    simp [h]
  · rename_i t h
    simp [h,ofTable_eq_ok]

theorem ofText_eq_error (h : ofText content = .error r) : Refuses content r := by
  rw [ofText] at h
  split at h
  · rename_i ht
    cases h
    exact .malformed ht
  · rename_i ht
    cases h
    exact .unread ht
  · rename_i ht
    exact refuses_of_ofTable ht h

end

/-! The configuration of a start -/

/-- What is made of the content of a file: the configuration that it describes, or a failure that
names the file and its fault, unless something is in the way of finding the fault or of saying what
it is. -/
structure Judged (file : Path) (content : Text) (result : Except Failure Config) : Prop where
  accepted : ∀ c, result = .ok c ↔ ∃ t, Reading.document content = .ok t ∧ Settles t c
  refused : ∀ e, result = .error e →
    (∃ f, Refuses content (.fault f) ∧ e = .invalid file f) ∨
    ∃ o, Refuses content (.obstructed o) ∧ e = .obstructed o

/-- The file system can look for a configuration file at the start. -/
def Findable (tree : FileTree) (start : PathName) : Prop :=
  start.hasNul = false ∧ tree.isTooLong (start.resolve tree ++ [fileName]) = false

/-- The directories that are looked into from a start on. -/
def OnTheWay (tree : FileTree) (start : PathName) (d : Path) : Prop :=
  d <+: tree.directoryOf (start.resolve tree)

/-- The nearest configuration file decides by its content alone, and the standard holds where there
is none. -/
structure NearestDecides (tree : FileTree) (start : PathName) : Prop where
  unfindable : ¬Findable tree start → loadNearest tree start =
    .error (.obstructed (if start.hasNul then .nulCharacter else .longName))
  standard : Findable tree start → (∀ d, OnTheWay tree start d → ¬Configured tree d) →
    loadNearest tree start = .ok standard
  nearest : Findable tree start → (∃ d, OnTheWay tree start d ∧ Configured tree d) →
    ∃ d content, IsNearest tree (tree.directoryOf (start.resolve tree)) d ∧
      tree.file? (d ++ [fileName]) = some content ∧
      Judged (d ++ [fileName]) content (loadNearest tree start)

section
variable {tree : FileTree} {start : PathName} {p : Path} {content : Text}

theorem load_judged (h : tree.file? p = some content) : Judged p content (load tree p) := by
  have hload : load tree p = (ofText content).mapError fun
      | .fault f => .invalid p f
      | .obstructed o => .obstructed o := by
    rw [load,h]
    dsimp only
    cases ofText content with
    | ok => rfl
    | error r => cases r <;> rfl
  rw [hload]
  cases hr : ofText content with
  | ok c =>
    refine ⟨fun c' => ?_,nofun⟩
    rw [← ofText_eq_ok,hr]
    simp [Except.mapError]
  | error r =>
    refine ⟨fun c' => ?_,fun e he => ?_⟩
    · rw [← ofText_eq_ok,hr]
      exact iff_of_false nofun nofun
    · cases he
      have hr := ofText_eq_error hr
      cases r with
      | fault f => exact .inl ⟨f,hr,rfl⟩
      | obstructed o => exact .inr ⟨o,hr,rfl⟩

theorem file?_of_configured {d : Path} (h : FilesOnly tree) (hd : Configured tree d) :
    ∃ content, tree.file? (d ++ [fileName]) = some content := by
  obtain ⟨e,he⟩ := Option.isSome_iff_exists.mp hd
  cases e with
  | file content => exact ⟨content,by rw [FileTree.file?,he]⟩
  | directory => exact absurd he (h d)

theorem loadNearest_of_findable (h : Findable tree start) : loadNearest tree start =
    ((nearestFrom? tree (tree.directoryOf (start.resolve tree))).map (load tree)).getD
      (.ok standard) := by
  have hsearch : search tree start =
      .ok (nearestFrom? tree (tree.directoryOf (start.resolve tree))) := by
    rw [search]
    simp only [h.1,h.2,Bool.false_eq_true,if_false,nearest?_eq]
  rw [loadNearest,hsearch]
  cases nearestFrom? tree (tree.directoryOf (start.resolve tree)) <;> rfl

end

/-- A file below a directory with a configuration file, and another one at the root. -/
def nestedTree : FileTree where
  entries := [
    (["qlang.toml"].map String.toList,.file "[lint]\ndisable=[\"LEXER_ERROR\"]\n".toList),
    (["work","qlang.toml"].map String.toList,.file "[server]\nlinting=true\n".toList),
    (["work","src","a.q"].map String.toList,.file "x:1".toList)]
  here := ["work".toList]

/-- A working directory with nothing in it. -/
def emptyTree : FileTree := ⟨[],["work".toList]⟩

theorem not_configured_emptyTree (d : Path) : ¬Configured emptyTree d := by
  intro h
  obtain ⟨p,hp,hbegin⟩ := FileTree.isSome_entry_iff.mp h
  obtain rfl : p = ["work".toList] := List.mem_singleton.mp hp
  have hname := hbegin.subset (List.mem_append_right d (List.mem_singleton_self fileName))
  revert hname
  decide

/-- A working directory with a configuration file of the given content. -/
def configuredTree (content : Text) : FileTree :=
  ⟨[(["work".toList,fileName],.file content)],["work".toList]⟩

def obstacle? : Except Failure Config → Option Obstacle
  | .error (.obstructed o) => some o
  | .error (.invalid _ _) | .ok _ => none

end Configuration
end QScope
