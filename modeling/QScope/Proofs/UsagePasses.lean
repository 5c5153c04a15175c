import Mathlib.Data.List.Induction
import QScope.Proofs.UsageFindings

/-! # Usage passes: the use of local names, from dictionaries of what defines and what reads them -/
namespace QScope.Linting

section
variable {α β : Type} {index : α → Nat} {key : β → Nat} {g : α → List β} {as : List α}

/-- Of numbered elements, the one with a number. -/
theorem filter_index {n : Nat}
    (h : ∀ (i : Nat) (a : α), as[i]? = some a → index a = n + i) (k : Nat) :
    as.filter (index · == n + k) = as[k]?.toList := by
  induction as generalizing n k with
  | nil => rfl
  | cons a as ih =>
    have hfirst : index a = n := h 0 a rfl
    have hrest : ∀ (i : Nat) (b : α), as[i]? = some b → index b = n + 1 + i := by
      intro i b hb
      rw [h (i + 1) b hb]
      omega
    cases k with
    | zero =>
      have hnone : as.filter (index · == n + 0) = [] := by
        refine List.filter_eq_nil_iff.mpr fun b hb => ?_
        obtain ⟨i,hi⟩ := List.mem_iff_getElem?.mp hb
        rw [hrest i b hi,beq_iff_eq]
        omega
      rw [List.filter_cons_of_pos (by simp [hfirst]),hnone]
      rfl
    | succ k =>
      rw [List.filter_cons_of_neg (by simp [hfirst]),List.getElem?_cons_succ,← ih hrest]
      refine List.filter_congr fun b _ => ?_
      rw [Nat.add_right_comm,Nat.add_assoc]

theorem filter_flatMap_key (hg : ∀ a, ∀ b ∈ g a, key b = index a) (as : List α) (k : Nat) :
    (as.flatMap g).filter (key · == k) = (as.filter (index · == k)).flatMap g := by
  induction as with
  | nil => rfl
  | cons a as ih =>
    rw [List.flatMap_cons,List.filter_append,ih]
    by_cases ha : index a = k
    · rw [List.filter_cons_of_pos (by simpa using ha),List.flatMap_cons,
        List.filter_eq_self.mpr fun b hb => by rw [hg a b hb,ha,beq_self_eq_true]]
    · have hnone : (g a).filter (key · == k) = [] := List.filter_eq_nil_iff.mpr fun b hb => by
        rw [hg a b hb,beq_iff_eq]
        exact ha
      rw [List.filter_cons_of_neg (by simpa using ha),hnone,List.nil_append]

/-- What comes from numbered elements, and keeps their numbers, comes from that of its number. -/
theorem filter_flatMap_index (h : ∀ (i : Nat) (a : α), as[i]? = some a → index a = i)
    (hg : ∀ a, ∀ b ∈ g a, key b = index a) (k : Nat) :
    (as.flatMap g).filter (key · == k) = as[k]?.toList.flatMap g := by
  have hat : as.filter (index · == 0 + k) = as[k]?.toList :=
    filter_index (fun i a hi => by rw [h i a hi,Nat.zero_add]) k
  rw [Nat.zero_add] at hat
  rw [filter_flatMap_key hg,hat]

end

section
variable {κ α : Type} [BEq κ] {d : List (κ × List α)} {key k : κ} {a : α} {as : List α}

/-- A dictionary with one more element under a key. A key keeps the place that it came in at. -/
def record (key : κ) (a : α) : List (κ × List α) → List (κ × List α)
  | [] => [(key,[a])]
  | (k,as) :: d => if k == key then (k,as ++ [a]) :: d else (k,as) :: record key a d

/-- The elements by their keys; those that have none are left out. -/
def grouped (key? : α → Option κ) (as : List α) : List (κ × List α) :=
  as.foldl (fun d a => match key? a with
    | some key => record key a d
    | none => d) []

/-- A dictionary has the elements of a list by their keys: each key once, with all its elements. -/
structure Groups (key? : α → Option κ) (as : List α) (d : List (κ × List α)) : Prop where
  nodup : (d.map (·.1)).Nodup
  keys : ∀ k, k ∈ d.map (·.1) ↔ ∃ a ∈ as, key? a = some k
  lookup : ∀ k, (d.lookup k).getD [] = as.filter (key? · == some k)

variable [LawfulBEq κ]

theorem lookup_record (key : κ) (a : α) (d : List (κ × List α)) (k : κ) :
    (record key a d).lookup k =
      if k == key then some ((d.lookup k).getD [] ++ [a]) else d.lookup k := by
  induction d with
  | nil =>
    rw [record,List.lookup_cons]
    cases k == key <;> rfl
  | cons e d ih =>
    obtain ⟨j,as⟩ := e
    rw [record]
    by_cases hj : j = key
    · subst hj
      rw [if_pos BEq.rfl,List.lookup_cons,List.lookup_cons]
      cases k == j <;> rfl
    · rw [if_neg (by simpa using hj),List.lookup_cons,List.lookup_cons,ih]
      by_cases hk : k = j
      · subst hk
        simp [hj]
      · rw [beq_false_of_ne hk]

theorem mem_keys_record : k ∈ (record key a d).map (·.1) ↔ k = key ∨ k ∈ d.map (·.1) := by
  induction d with
  | nil => simp [record]
  | cons e d ih =>
    obtain ⟨j,as⟩ := e
    rw [record]
    by_cases hj : j = key
    · subst hj
      simp
    · rw [if_neg (by simpa using hj),List.map_cons,List.mem_cons,ih,List.map_cons,List.mem_cons,
        or_left_comm]

theorem nodup_keys_record (h : (d.map (·.1)).Nodup) : ((record key a d).map (·.1)).Nodup := by
  induction d with
  | nil => simp [record]
  | cons e d ih =>
    obtain ⟨j,as⟩ := e
    rw [record]
    by_cases hj : j = key
    · rwa [if_pos (beq_iff_eq.mpr hj)]
    · rw [if_neg (by simpa using hj)]
      obtain ⟨hjd,hd⟩ := List.nodup_cons.mp h
      exact List.nodup_cons.mpr ⟨fun hm => (mem_keys_record.mp hm).elim hj hjd,ih hd⟩

theorem groups_grouped (key? : α → Option κ) (as : List α) :
    Groups key? as (grouped key? as) := by
  induction as using List.reverseRecOn with
  | nil => exact ⟨.nil,by simp [grouped],fun _ => rfl⟩
  | append_singleton as a ih =>
    have hstep : grouped key? (as ++ [a]) = match key? a with
        | some key => record key a (grouped key? as)
        | none => grouped key? as := by
      rw [grouped,List.foldl_append]
      rfl
    rw [hstep]
    cases hk : key? a with
    | none => exact ⟨ih.nodup,by simp [ih.keys,hk],by simp [ih.lookup,hk]⟩
    | some key =>
      refine ⟨nodup_keys_record ih.nodup,fun k => ?_,fun k => ?_⟩
      · rw [mem_keys_record,ih.keys]
        simp [hk,or_comm,eq_comm]
      · rw [lookup_record,List.filter_append,← ih.lookup]
        by_cases hkey : k = key
        · simp [hkey,hk]
        · simp [hkey,hk,Ne.symm hkey]

theorem lookup_of_mem (hd : (d.map (·.1)).Nodup) (h : (k,as) ∈ d) : d.lookup k = some as := by
  induction d with
  | nil => cases h
  | cons e d ih =>
    obtain ⟨j,bs⟩ := e
    obtain ⟨hj,hd⟩ := List.nodup_cons.mp hd
    rcases List.mem_cons.mp h with heq | hmem
    · cases heq
      exact List.lookup_cons_self
    · have hne : k ≠ j := by
        rintro rfl
        exact hj (List.mem_map.mpr ⟨_,hmem,rfl⟩)
      rw [List.lookup_cons,beq_false_of_ne hne]
      exact ih hd hmem

end

section
variable (tokens : List AnnotatedToken)

/-- The definitions of local names by their lambda and name. -/
def definitions : List ((Nat × Text) × List AnnotatedToken) :=
  grouped (fun t => if definesLocal t then usageKey? t else none) tokens

def reads : List ((Nat × Text) × List AnnotatedToken) :=
  grouped (fun t => if definesLocal t then none else usageKey? t) tokens

/-- What is wrong with the use of local names, name by name. -/
def localUsage : List Finding :=
  (definitions tokens).flatMap fun (key,ts) => verdict ts (((reads tokens).lookup key).getD [])

end

section
variable {tokens : List AnnotatedToken} {t : AnnotatedToken} {key : Nat × Text}

theorem nodup_definitions (tokens : List AnnotatedToken) :
    ((definitions tokens).map (·.1)).Nodup := (groups_grouped _ tokens).nodup

theorem lookup_definitions (tokens : List AnnotatedToken) (key : Nat × Text) :
    ((definitions tokens).lookup key).getD [] = (uses tokens key).filter definesLocal := by
  rw [definitions,(groups_grouped _ tokens).lookup,uses,List.filter_filter]
  refine List.filter_congr fun t _ => ?_
  cases definesLocal t <;> simp

theorem lookup_reads (tokens : List AnnotatedToken) (key : Nat × Text) :
    ((reads tokens).lookup key).getD [] = (uses tokens key).filter (!definesLocal ·) := by
  rw [reads,(groups_grouped _ tokens).lookup,uses,List.filter_filter]
  refine List.filter_congr fun t _ => ?_
  cases definesLocal t <;> simp

theorem mem_keys_definitions :
    key ∈ (definitions tokens).map (·.1) ↔ (uses tokens key).filter definesLocal ≠ [] := by
  rw [definitions,(groups_grouped _ tokens).keys,← List.length_pos_iff,
    List.length_pos_iff_exists_mem]
  refine exists_congr fun t => ?_
  rw [List.mem_filter,mem_uses,and_assoc]
  cases definesLocal t <;> simp

/-- The findings on the use of names, name by name and each time through all tokens. -/
theorem localUsage_eq
    (hn : ∀ (i : Nat) (t : AnnotatedToken), tokens[i]? = some t → t.index = i) :
    localUsage tokens =
      ((definitions tokens).map (·.1)).flatMap fun key =>
        tokens.filterMap (findingsOn tokens key) := by
  rw [localUsage,List.flatMap_map]
  refine List.flatMap_congr fun e he => ?_
  have hkey : e.1 ∈ (definitions tokens).map (·.1) := List.mem_map_of_mem he
  have hts : e.2 = (uses tokens e.1).filter definesLocal := by
    rw [← lookup_definitions,lookup_of_mem (nodup_definitions tokens) he,Option.getD_some]
  rw [filterMap_findingsOn hn (mem_keys_definitions.mp hkey),← hts,← lookup_reads]

theorem flatMap_ite_eq {κ α : Type} [DecidableEq κ] {ks : List κ} (h : ks.Nodup) (k : κ)
    (as : List α) : ks.flatMap (fun j => if k = j then as else []) = if k ∈ ks then as else [] := by
  induction ks with
  | nil => rfl
  | cons j ks ih =>
    obtain ⟨hj,hks⟩ := List.nodup_cons.mp h
    rw [List.flatMap_cons,ih hks]
    by_cases hk : k = j
    · subst hk
      simp [hj]
    · simp [hk]

/-- Name by name the same is said of a token as at once. -/
theorem flatMap_findingsOn (t : AnnotatedToken) :
    ((definitions tokens).map (·.1)).flatMap (fun key => (findingsOn tokens key t).toList) =
      ((usage? tokens t).map (Finding.mk t)).toList := by
  have hones : ∀ key, (findingsOn tokens key t).toList =
      if usageKey? t = some key then ((usage? tokens t).map (Finding.mk t)).toList else [] := by
    intro key
    rw [findingsOn]
    split <;> rfl
  simp only [hones]
  cases hk : usageKey? t with
  | none =>
    rw [usage?,hk]
    simp
  | some key =>
    simp only [Option.some.injEq]
    rw [flatMap_ite_eq (nodup_definitions tokens)]
    split
    · rfl
    · rename_i hkey
      rw [mem_keys_definitions,not_not] at hkey
      rw [usage?_of_key hk,hkey]
      rfl

theorem filter_localUsage
    (hn : ∀ (i : Nat) (t : AnnotatedToken), tokens[i]? = some t → t.index = i) (k : Nat) :
    (localUsage tokens).filter (·.token.index == k) =
      tokens[k]?.toList.flatMap fun t => ((usage? tokens t).map (Finding.mk t)).toList := by
  have hone : ∀ key, (tokens.filterMap (findingsOn tokens key)).filter (·.token.index == k) =
      tokens[k]?.toList.flatMap fun t => (findingsOn tokens key t).toList := by
    intro key
    rw [List.filterMap_eq_flatMap_toList]
    refine filter_flatMap_index hn (fun t f hf => ?_) k
    rw [Option.mem_toList,findingsOn] at hf
    split at hf
    · obtain ⟨p,-,rfl⟩ := Option.map_eq_some_iff.mp hf
      rfl
    · cases hf
  rw [localUsage_eq hn,List.filter_flatMap,List.flatMap_congr fun key _ => hone key]
  cases tokens[k]? with
  | none => simp
  | some t => simpa using flatMap_findingsOn t

end

end QScope.Linting
