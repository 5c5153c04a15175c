import QScope.SourceExcerpts

/-! # File snapshots: a renderer shows every file as it was when a diagnostic first named it

What becomes of a file afterwards changes nothing, and neither does another spelling of its name. -/
namespace QScope

/-- The lines of files by the names they are spelled with; what is no file has none. -/
abbrev Snapshot := Text → List Text

namespace Snapshot

/-- The line that a span starts on, if the file has it. -/
def line? (files : Snapshot) (s : Span) : Option Text :=
  if s.start.line ≤ 0 then none else (files s.file)[s.start.line.toNat - 1]?

def write (color : Bool) (files : Snapshot) (d : Diagnostic) : Text :=
  Diagnostics.write color files.line? d

/-- The text of a diagnostic about files that are as in the snapshot, if its rows can be written. -/
def display (color : Bool) (files : Snapshot) (d : Diagnostic) : Except Obstacle Text :=
  match Diagnostics.obstacle? d with
  | some o => .error o
  | none => .ok (files.write color d)

end Snapshot

/-- The names of the files that the labels of a diagnostic are in. -/
def Diagnostic.files (d : Diagnostic) : List Text := d.labels.map (·.span.file)

namespace RenderStep

/-- The files behind a step. -/
def apply (tree : FileTree) : RenderStep → FileTree
  | write p e => tree.write p e
  | delete p => tree.delete p
  | display _ => tree

/-- Whether a step displays a diagnostic that names a file in one of its labels. -/
def mentions (name : Text) : RenderStep → Bool
  | display d => d.files.contains name
  | write _ _ | delete _ => false

/-- What a step displays where files are as in the snapshot. -/
def shown (color : Bool) (files : Snapshot) : RenderStep → Option (Except Obstacle Text)
  | display d => some (files.display color d)
  | write _ _ | delete _ => none

end RenderStep

/-- Every file as it is in front of the first step that mentions it. -/
def firstSeen (tree : FileTree) (steps : List RenderStep) : Snapshot := fun name =>
  SourceLines.ofFile ((steps.takeWhile (!·.mentions name)).foldl RenderStep.apply tree) name

section
variable {tree : FileTree} {d : Diagnostic} {name : Text}

/-- A diagnostic shows no lines but those of the files it names. -/
theorem Snapshot.write_congr {color : Bool} {files others : Snapshot}
    (h : ∀ name ∈ d.files, files name = others name) :
    files.write color d = others.write color d := by
  have hrows : ∀ l ∈ d.labels, Diagnostics.labelRows d.severity (files.line? l.span) l =
      Diagnostics.labelRows d.severity (others.line? l.span) l := by
    intro l hl
    rw [line?,line?,h l.span.file (List.mem_map_of_mem hl)]
  rw [write,write,Diagnostics.write,Diagnostics.write,Diagnostics.rows,Diagnostics.rows,
    List.flatMap_def,List.flatMap_def,List.map_congr_left hrows]

theorem Snapshot.display_congr {color : Bool} {files others : Snapshot}
    (h : ∀ name ∈ d.files, files name = others name) :
    files.display color d = others.display color d := by
  rw [display,display,write_congr h]

theorem firstSeen_cons_of_mentions {step : RenderStep} (h : step.mentions name = true)
    (steps : List RenderStep) :
    firstSeen tree (step :: steps) name = SourceLines.ofFile tree name := by
  rw [firstSeen,List.takeWhile_cons_of_neg (by simpa using h)]
  rfl

theorem firstSeen_cons {step : RenderStep} (h : step.mentions name = false)
    (steps : List RenderStep) :
    firstSeen tree (step :: steps) name = firstSeen (step.apply tree) steps name := by
  rw [firstSeen,List.takeWhile_cons_of_pos (by simpa using h)]
  rfl

namespace Renderer
variable {r : Renderer} {files : Snapshot}

/-- The lines that a renderer shows: those it knows, or else those of the snapshot. -/
def overlay (r : Renderer) (files : Snapshot) : Snapshot := fun name =>
  (r.known.lookup name).getD (files name)

theorem overlay_learn (tree : FileTree) (r : Renderer) (n name : Text) :
    (learn tree r n).overlay files name =
      if name = n then r.overlay (SourceLines.ofFile tree) name else r.overlay files name := by
  rw [learn]
  split
  · rename_i l hl
    split
    · rename_i hn
      rw [overlay,overlay,hn,hl]
      rfl
    · rfl
  · rename_i hl
    rw [overlay,List.lookup_cons]
    split
    · rename_i hn
      rw [beq_iff_eq.mp hn,if_pos rfl,overlay,hl]
      rfl
    · rename_i hn
      rw [if_neg (beq_eq_false_iff_ne.mp hn)]
      rfl

theorem overlay_foldl_learn (tree : FileTree) (names : List Text) (r : Renderer) (name : Text) :
    (names.foldl (learn tree) r).overlay files name =
      if name ∈ names then r.overlay (SourceLines.ofFile tree) name else r.overlay files name := by
  induction names generalizing r with
  | nil => rfl
  | cons n names ih =>
    rw [List.foldl_cons,ih,overlay_learn,overlay_learn]
    by_cases hn : name = n
    · rw [if_pos hn,if_pos hn,ite_self,if_pos (hn ▸ List.mem_cons_self)]
    · rw [if_neg hn,if_neg hn]
      simp [hn]

/-- What a diagnostic names is known behind it, as it was. -/
theorem overlay_learnAll (tree : FileTree) (r : Renderer) (d : Diagnostic) (name : Text) :
    (r.learnAll tree d).overlay files name =
      if name ∈ d.files then r.overlay (SourceLines.ofFile tree) name else r.overlay files name :=
  overlay_foldl_learn tree d.files r name

theorem color_learn (tree : FileTree) (r : Renderer) (n : Text) :
    (learn tree r n).color = r.color := by
  rw [learn]
  split <;> rfl

theorem color_learnAll (tree : FileTree) (r : Renderer) (d : Diagnostic) :
    (r.learnAll tree d).color = r.color := by
  rw [learnAll]
  induction d.labels.map (·.span.file) generalizing r with
  | nil => rfl
  | cons n names ih => rw [List.foldl_cons,ih,color_learn]

theorem write_eq (r : Renderer) (d : Diagnostic) :
    r.write d = (r.overlay fun _ => []).write r.color d := rfl

theorem write_learnAll (tree : FileTree) (r : Renderer) (d : Diagnostic) :
    (r.learnAll tree d).write d = (r.overlay (SourceLines.ofFile tree)).write r.color d := by
  rw [write_eq,color_learnAll]
  refine Snapshot.write_congr fun name hn => ?_
  rw [overlay_learnAll,if_pos hn]

theorem display_learnAll (tree : FileTree) (r : Renderer) (d : Diagnostic) :
    (r.learnAll tree d).display d = (r.overlay (SourceLines.ofFile tree)).display r.color d := by
  rw [display,write_learnAll]
  rfl

/-- What a renderer knows it shows, and everything else as it is first seen. -/
theorem session_overlay (r : Renderer) (tree : FileTree) (steps : List RenderStep) :
    r.session tree steps = steps.map (·.shown r.color (r.overlay (firstSeen tree steps))) := by
  induction steps generalizing r tree with
  | nil => rfl
  | cons step steps ih =>
    cases step with
    | write p e => exact congrArg (none :: ·) (ih r (tree.write p e))
    | delete p => exact congrArg (none :: ·) (ih r (tree.delete p))
    | display d =>
      rw [session,List.map_cons,ih,color_learnAll,display_learnAll]
      have hmentions : ∀ name ∈ d.files, (RenderStep.display d).mentions name = true :=
        fun name hn => List.contains_iff_mem.mpr hn
      have hfirst : (r.overlay (SourceLines.ofFile tree)).display r.color d =
          (r.overlay (firstSeen tree (.display d :: steps))).display r.color d := by
        refine Snapshot.display_congr fun name hn => ?_
        rw [overlay,overlay,firstSeen_cons_of_mentions (hmentions name hn)]
      have hrest : (r.learnAll tree d).overlay (firstSeen tree steps) =
          r.overlay (firstSeen tree (.display d :: steps)) := by
        funext name
        rw [overlay_learnAll]
        by_cases hn : name ∈ d.files
        · rw [if_pos hn,overlay,overlay,firstSeen_cons_of_mentions (hmentions name hn)]
        · rw [if_neg hn,overlay,overlay,firstSeen_cons (by simpa [RenderStep.mentions] using hn)]
          rfl
      rw [hfirst,hrest]
      rfl

end Renderer

/-- A renderer shows the files of a snapshot. For one diagnostic alone the snapshot is that of the
files as they are; for a sequence of steps each file is as it was when a diagnostic first named
it. -/
structure ShowsFirstSeen (color : Bool) : Prop where
  alone : ∀ tree d, (Renderer.start color).session tree [.display d] =
    [some (Snapshot.display color (SourceLines.ofFile tree) d)]
  session : ∀ tree steps, (Renderer.start color).session tree steps =
    steps.map (·.shown color (firstSeen tree steps))

end
end QScope
