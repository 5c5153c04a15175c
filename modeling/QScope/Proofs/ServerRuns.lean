import Mathlib.Data.List.Induction
import QScope.LanguageServer

/-! # Server runs: the latest event that counts decides what an editor shows of a document -/
namespace QScope

/-- An event of a sequence behind which there is no other. Whether an element is an event may depend
on what is before it. -/
structure Latest {α : Type} (event : List α → α → Prop) (as before : List α) (a : α) : Prop where
  isPrefix : before ++ [a] <+: as
  occurs : event before a
  last : ∀ bs b, bs ++ [b] <+: as → event bs b → bs.length ≤ before.length

def Never {α : Type} (event : List α → α → Prop) (as : List α) : Prop :=
  ∀ bs b, bs ++ [b] <+: as → ¬event bs b

section
variable {α β : Type} {event : List α → α → Prop} {as before : List α} {a b : α}

theorem Latest.of_event (h : event as a) : Latest event (as ++ [a]) as a :=
  ⟨List.prefix_rfl,h,fun bs b hb _ => by simpa using hb.length_le⟩

theorem Latest.concat (h : Latest event as before a) (hb : ¬event as b) :
    Latest event (as ++ [b]) before a := by
  refine ⟨h.isPrefix.trans (List.prefix_append _ _),h.occurs,fun bs c hc he => ?_⟩
  rcases List.prefix_concat_iff.mp hc with heq | hpre
  · obtain ⟨rfl,hcb⟩ := List.append_inj' heq rfl
    rw [List.cons.injEq] at hcb
    exact absurd (hcb.1 ▸ he) hb
  · exact h.last bs c hpre he

/-- The latest event of a longer sequence is its last element, or else that of the shorter one. -/
theorem Latest.of_concat (h : Latest event (as ++ [b]) before a) :
    event as b ∧ before = as ∧ a = b ∨ ¬event as b ∧ Latest event as before a := by
  rcases List.prefix_concat_iff.mp h.isPrefix with heq | hpre
  · obtain ⟨rfl,hab⟩ := List.append_inj' heq rfl
    obtain ⟨rfl,-⟩ := List.cons.inj hab
    exact .inl ⟨h.occurs,rfl,rfl⟩
  · refine .inr ⟨fun hb => ?_,hpre,h.occurs,fun bs c hc => ?_⟩
    · have hlast := h.last as b List.prefix_rfl hb
      have hlength := hpre.length_le
      rw [List.length_append,List.length_singleton] at hlength
      omega
    · exact h.last bs c (hc.trans (List.prefix_append _ _))

theorem Never.of_concat (h : Never event (as ++ [b])) : ¬event as b ∧ Never event as :=
  ⟨h as b List.prefix_rfl,fun bs c hc => h bs c (hc.trans (List.prefix_append _ _))⟩

theorem exists_latest_of_not_never (h : ¬Never event as) :
    ∃ before a, Latest event as before a := by
  induction as using List.reverseRecOn with
  | nil => exact absurd (fun bs b hb => by simp at hb) h
  | append_singleton as b ih =>
    by_cases hb : event as b
    · exact ⟨as,b,.of_event hb⟩
    · have hnever : ¬Never event as := fun hn => h fun bs c hc => by
        rcases List.prefix_concat_iff.mp hc with heq | hpre
        · obtain ⟨rfl,hcb⟩ := List.append_inj' heq rfl
          obtain ⟨rfl,-⟩ := List.cons.inj hcb
          exact hb
        · exact hn bs c hpre
      obtain ⟨before,a,hlatest⟩ := ih hnever
      exact ⟨before,a,hlatest.concat hb⟩

/-- What only events change is as the latest of them has left it. -/
theorem Latest.value {P : α → β → Prop} {f : List α → β}
    (hit : ∀ as a, event as a → P a (f (as ++ [a])))
    (miss : ∀ as a, ¬event as a → f (as ++ [a]) = f as) (h : Latest event as before a) :
    P a (f as) := by
  induction as using List.reverseRecOn with
  | nil => simpa using h.isPrefix.length_le
  | append_singleton as b ih =>
    rcases h.of_concat with ⟨hb,-,rfl⟩ | ⟨hb,hlatest⟩
    · exact hit as a hb
    · rw [miss as b hb]
      exact ih hlatest

theorem Never.value {f : List α → β} (miss : ∀ as a, ¬event as a → f (as ++ [a]) = f as)
    (h : Never event as) : f as = f [] := by
  induction as using List.reverseRecOn with
  | nil => rfl
  | append_singleton as b ih =>
    obtain ⟨hb,hnever⟩ := h.of_concat
    rw [miss as b hb,ih hnever]

end

/-- Settings of a client that say whether linting is on: it is only if that is literally true. -/
def Payload.SetsLinting (p : Payload) (on : Bool) : Prop :=
  ∃ members kdb, p = .group members ∧ members.lookup "kdb".toList = some (.group kdb) ∧
    (on = true ↔ kdb.lookup "linting".toList = some (.flag true))

namespace Payload

theorem isOn_iff {members : List (Text × Payload)} {key : String} :
    isOn members key = true ↔ members.lookup key.toList = some (.flag true) := by
  rw [isOn]
  split
  · rename_i h
    simp [h]
  · rename_i h
    simpa using fun h' => h h'

theorem settings?_of_setsLinting {p : Payload} {on : Bool} (h : p.SetsLinting on) :
    ∃ s, p.settings? = some s ∧ s.linting = on := by
  obtain ⟨members,kdb,rfl,hm,hon⟩ := h
  refine ⟨_,by rw [settings?.eq_def]; dsimp only; rw [hm],?_⟩
  rw [Bool.eq_iff_iff,hon]
  exact isOn_iff

theorem setsLinting_of_settings? {p : Payload} {s : Settings} (h : p.settings? = some s) :
    p.SetsLinting s.linting := by
  rw [settings?.eq_def] at h
  split at h
  · split at h
    · rename_i members kdb hm
      cases h
      exact ⟨_,kdb,rfl,hm,isOn_iff⟩
    · cases h
  · cases h
  · cases h

end Payload

namespace LanguageServer
open Editing

namespace Message

/-- The document that a message is about. -/
def uri? : Message → Option Text
  | opened uri _ | changed uri _ | closed uri | symbols uri | references uri _
  | definition uri _ | rename uri _ _ | completion uri _ => some uri
  | configured _ => none

/-- The document that a message opens, changes or closes, and the text it brings, if any. -/
def update? : Message → Option (Text × Option Text)
  | opened uri text | changed uri text => some (uri,some text)
  | closed uri => some (uri,none)
  | _ => none

/-- Every message about a document that is no update of it is a request. -/
def IsRequest (m : Message) : Prop := m.uri?.isSome ∧ m.update? = none

def SwitchesLinting (m : Message) : Prop := ∃ p on, m = configured p ∧ p.SetsLinting on

/-- Updates of the document of a name. -/
def Updates (name : Text) (m : Message) : Prop :=
  ∃ u, m.update? = some u ∧ Uris.decode u.1 = name

end Message

/-- What is to be published for a document: what is wrong with its text, and nothing without one. -/
def findings (disabled : List Text) (uri : Text) : Option Text → List Notice
  | none => []
  | some text => notices disabled (Annotating.parse uri text)

/-- The notices that an editor shows for some URIs: those published last for one of them. -/
def lastShown (uris : Text → Bool) (ps : List Publication) : Option (List Notice) :=
  (ps.filter (uris ·.uri)).getLast?.map (·.notices)

namespace Server

/-- The server after a sequence of messages. -/
def after (s : Server) (ms : List Message) : Server := ms.foldl receive s

/-- All that is published on a sequence of messages. -/
def published (s : Server) (ms : List Message) : List Publication := (s.run ms).flatMap (·.2)

/-- Updates that decide what is shown for some URIs: texts that arrive while linting is on, and the
end of a document in any case. -/
def Decides (s : Server) (uris : Text → Bool) (before : List Message) (m : Message) : Prop :=
  ∃ u, m.update? = some u ∧ uris u.1 ∧
    (u.2 = none ∨ (s.after before).settings.linting = true)

section
variable {s : Server} {m : Message} {u : Text × Option Text}

theorem after_concat (s : Server) (ms : List Message) (m : Message) :
    s.after (ms ++ [m]) = (s.after ms).receive m := List.foldl_append

theorem run_append (s : Server) (ms ns : List Message) :
    s.run (ms ++ ns) = s.run ms ++ (s.after ms).run ns := by
  induction ms generalizing s with
  | nil => rfl
  | cons m ms ih =>
    rw [List.cons_append,run,run,ih]
    rfl

theorem published_concat (s : Server) (ms : List Message) (m : Message) :
    s.published (ms ++ [m]) = s.published ms ++ ((s.after ms).receive m).publish m := by
  rw [published,published,run_append,List.flatMap_append,run,run,List.flatMap_singleton]

theorem receive_of_isRequest (h : m.IsRequest) : s.receive m = s := by
  obtain ⟨hu,hn⟩ := h
  cases m with
  | opened uri text => cases hn
  | changed uri text => cases hn
  | closed uri => cases hn
  | configured payload => cases hu
  | _ => rfl

theorem publish_of_not_update (h : m.update? = none) : s.publish m = [] := by
  cases m with
  | opened uri text => cases h
  | changed uri text => cases h
  | closed uri => cases h
  | _ => rfl

theorem text_store (s : Server) (uri text : Text) : (s.store uri text).text uri = text := by
  simp [Server.text,store]

/-- Only with linting off is an update passed over in silence, and then only if it brings a text. -/
theorem publish_of_update (h : m.update? = some u) :
    (s.receive m).publish m =
      if u.2 = none ∨ s.settings.linting = true then [⟨u.1,findings s.disabled u.1 u.2⟩]
      else [] := by
  have hstore : ∀ uri text, (s.store uri text).publish (.opened uri text) =
      if s.settings.linting then [⟨uri,findings s.disabled uri (some text)⟩] else [] := by
    intro uri text
    rw [publish,tokens,text_store]
    rfl
  cases m with
  | opened uri text =>
    cases h
    simp only [reduceCtorEq,false_or]
    exact hstore uri text
  | changed uri text =>
    cases h
    simp only [reduceCtorEq,false_or]
    exact hstore uri text
  | closed uri =>
    cases h
    rfl
  | _ => cases h

theorem uri_of_mem_publish {p : Publication} (h : p ∈ s.publish m) : m.uri? = some p.uri := by
  cases m with
  | opened uri text =>
    rw [publish] at h
    split at h
    · cases List.mem_singleton.mp h
      rfl
    · cases h
  | changed uri text =>
    rw [publish] at h
    split at h
    · cases List.mem_singleton.mp h
      rfl
    · cases h
  | closed uri =>
    cases List.mem_singleton.mp h
    rfl
  | _ => cases h

theorem lookup_filter_ne (n name : Text) (ds : List (Text × Text)) :
    (ds.filter (·.1 != n)).lookup name = if n = name then none else ds.lookup name := by
  induction ds with
  | nil => simp
  | cons d ds ih =>
    obtain ⟨key,text⟩ := d
    by_cases hk : key = n
    · rw [List.filter_cons_of_neg (by simpa using hk),ih,hk,List.lookup_cons]
      by_cases hn : n = name
      · rw [if_pos hn,if_pos hn]
      · rw [if_neg hn,if_neg hn,beq_false_of_ne (Ne.symm hn)]
    · rw [List.filter_cons_of_pos (by simpa using hk),List.lookup_cons,List.lookup_cons,ih]
      by_cases hn : n = name
      · rw [if_pos hn,if_pos hn,beq_false_of_ne (hn ▸ Ne.symm hk)]
      · rw [if_neg hn,if_neg hn]

/-- The text of an updated document is the one that the update brings. -/
theorem lookup_receive (h : m.update? = some u) (name : Text) :
    (s.receive m).documents.lookup name =
      if Uris.decode u.1 = name then u.2 else s.documents.lookup name := by
  have hstore : ∀ uri text : Text, (s.store uri text).documents.lookup name =
      if Uris.decode uri = name then some text else s.documents.lookup name := by
    intro uri text
    rw [store,List.lookup_cons,lookup_filter_ne]
    by_cases hn : Uris.decode uri = name
    · subst hn
      simp
    · rw [if_neg hn,if_neg hn,beq_false_of_ne (Ne.symm hn)]
  cases m with
  | opened uri text =>
    cases h
    exact hstore uri text
  | changed uri text =>
    cases h
    exact hstore uri text
  | closed uri =>
    cases h
    exact lookup_filter_ne _ name s.documents
  | _ => cases h

theorem documents_of_not_update (h : m.update? = none) :
    (s.receive m).documents = s.documents := by
  cases m with
  | opened uri text => cases h
  | changed uri text => cases h
  | closed uri => cases h
  | _ => rfl

theorem disabled_receive (s : Server) (m : Message) : (s.receive m).disabled = s.disabled := by
  cases m <;> rfl

theorem disabled_after (s : Server) (ms : List Message) : (s.after ms).disabled = s.disabled := by
  induction ms using List.reverseRecOn with
  | nil => rfl
  | append_singleton ms m ih => rw [after_concat,disabled_receive,ih]

end

/-! The three things that events decide: whether linting is on, the texts, what is shown -/

section
variable {s : Server} {ms before : List Message} {m : Message} {u : Text × Option Text}
  {name : Text} {uris : Text → Bool}

theorem linting_of_switch {p : Payload} {on : Bool} (hp : p.SetsLinting on) :
    (s.receive (.configured p)).settings.linting = on := by
  obtain ⟨settings,hs,hon⟩ := Payload.settings?_of_setsLinting hp
  rw [receive,Payload.applyTo,hs]
  exact hon

theorem linting_of_not_switch (h : ¬m.SwitchesLinting) :
    (s.receive m).settings.linting = s.settings.linting := by
  cases m with
  | configured p =>
    rw [receive,Payload.applyTo]
    cases hp : p.settings? with
    | none => rfl
    | some settings => exact absurd ⟨p,_,rfl,Payload.setsLinting_of_settings? hp⟩ h
  | _ => rfl

/-- Linting is on or off as the latest switch says. -/
theorem linting_of_latest {p : Payload} {on : Bool} (hp : p.SetsLinting on)
    (h : Latest (fun _ m => m.SwitchesLinting) ms before (.configured p)) :
    (s.after ms).settings.linting = on := by
  refine Latest.value (f := fun ms => (s.after ms).settings.linting)
    (P := fun m b => ∀ p on, m = .configured p → p.SetsLinting on → b = on) ?_ ?_ h p on rfl hp
  · rintro ms m - p on rfl hp
    rw [after_concat,linting_of_switch hp]
  · intro ms m hm
    rw [after_concat,linting_of_not_switch hm]

theorem lookup_of_not_updates (h : ¬m.Updates name) :
    (s.receive m).documents.lookup name = s.documents.lookup name := by
  cases hu : m.update? with
  | none => rw [documents_of_not_update hu]
  | some u => rw [lookup_receive hu,if_neg fun hn => h ⟨u,hu,hn⟩]

theorem lastShown_append (uris : Text → Bool) (ps qs : List Publication) :
    lastShown uris (ps ++ qs) = (lastShown uris qs).or (lastShown uris ps) := by
  rw [lastShown,lastShown,lastShown,List.filter_append,List.getLast?_append,Option.map_or]

theorem shown_of_decides (h : s.Decides uris ms m) (hu : m.update? = some u) :
    lastShown uris (s.published (ms ++ [m])) = some (findings s.disabled u.1 u.2) := by
  obtain ⟨v,hv,huri,hon⟩ := h
  cases hu.symm.trans hv
  rw [published_concat,lastShown_append,publish_of_update hu,if_pos hon,disabled_after]
  simp [lastShown,huri]

theorem shown_of_not_decides (h : ¬s.Decides uris ms m) :
    lastShown uris (s.published (ms ++ [m])) = lastShown uris (s.published ms) := by
  rw [published_concat,lastShown_append]
  cases hu : m.update? with
  | none =>
    rw [publish_of_not_update hu]
    rfl
  | some u =>
    rw [publish_of_update hu]
    split
    · rename_i hon
      have huri : uris u.1 = false := by
        rw [← Bool.not_eq_true]
        exact fun huri => h ⟨u,hu,huri,hon⟩
      simp [lastShown,huri]
    · rfl

/-- What is shown is what the latest update that decides it has brought. -/
theorem shown_of_latest (h : Latest (s.Decides uris) ms before m) (hu : m.update? = some u) :
    lastShown uris (s.published ms) = some (findings s.disabled u.1 u.2) := by
  refine Latest.value (f := fun ms => lastShown uris (s.published ms))
    (P := fun m shown => ∀ u, m.update? = some u →
      shown = some (findings s.disabled u.1 u.2)) ?_ ?_ h u hu
  · exact fun ms m hm u => shown_of_decides hm
  · exact fun ms m hm => shown_of_not_decides hm

/-- A document has the text that the latest update of it has brought. -/
theorem lookup_of_latest (h : Latest (fun _ m => m.Updates name) ms before m)
    (hu : m.update? = some u) : (s.after ms).documents.lookup name = u.2 := by
  refine Latest.value (f := fun ms => (s.after ms).documents.lookup name)
    (P := fun m text => ∀ u, m.update? = some u → text = u.2) ?_ ?_ h u hu
  · rintro ms m ⟨v,hv,hname⟩ u hu
    cases hu.symm.trans hv
    rw [after_concat,lookup_receive hu,if_pos hname]
  · exact fun ms m hm => by rw [after_concat,lookup_of_not_updates hm]

/-- An open document is shown with the findings in its text if that arrived while linting was on. -/
theorem shown_of_lookup {text : Text} (hs : s.documents = [])
    (huris : ∀ m ∈ ms, ∀ u, m.update? = some u → (uris u.1 ↔ Uris.decode u.1 = name))
    (hon : ∀ before m, Latest (fun _ m => m.Updates name) ms before m →
      (s.after before).settings.linting = true)
    (ht : (s.after ms).documents.lookup name = some text) :
    ∃ uri, uris uri ∧ lastShown uris (s.published ms) =
      some (notices s.disabled (Annotating.parse uri text)) := by
  have hupdated : ¬Never (fun _ m => m.Updates name) ms := by
    intro hn
    have hv := hn.value (f := fun ms => (s.after ms).documents.lookup name)
      fun ms m hm => by rw [after_concat,lookup_of_not_updates hm]
    rw [ht,after,List.foldl_nil,hs] at hv
    cases hv
  obtain ⟨before,m,hlatest⟩ := exists_latest_of_not_never hupdated
  obtain ⟨⟨uri,brought⟩,hu,hname⟩ := hlatest.occurs
  have hmem : ∀ {bs b}, bs ++ [b] <+: ms → b ∈ ms := fun h =>
    h.subset (List.mem_append_right _ (List.mem_singleton_self _))
  have huri : uris uri := (huris m (hmem hlatest.isPrefix) _ hu).mpr hname
  have htext : brought = some text := (lookup_of_latest hlatest hu).symm.trans ht
  subst htext
  have hdecides : Latest (s.Decides uris) ms before m :=
    ⟨hlatest.isPrefix,⟨_,hu,huri,.inr (hon before m hlatest)⟩,fun bs b hb ⟨v,hv,hvuri,_⟩ =>
      hlatest.last bs b hb ⟨v,hv,(huris b (hmem hb) v hv).mp hvuri⟩⟩
  exact ⟨uri,huri,shown_of_latest hdecides hu⟩

end

/-- How a run of the server from its start publishes. Linting is on as set at the start or by the
latest settings that say so. For URIs that are told from all others, the latest update that decides
it is what is shown. `uris` can be a single URI or all spellings of a document; an open document
whose text arrived while linting was on is shown with the findings in that text. -/
structure PublishesFindings (settings : Settings) (disabled : List Text) (ms : List Message) :
    Prop where
  switched : ∀ before p on, p.SetsLinting on →
    Latest (fun _ m => m.SwitchesLinting) ms before (.configured p) →
    ((start settings disabled).after ms).settings.linting = on
  unswitched : Never (fun _ m => m.SwitchesLinting) ms →
    ((start settings disabled).after ms).settings.linting = settings.linting
  decided : ∀ uris before m u, m.update? = some u →
    Latest ((start settings disabled).Decides uris) ms before m →
    lastShown uris ((start settings disabled).published ms) = some (findings disabled u.1 u.2)
  undecided : ∀ uris, Never ((start settings disabled).Decides uris) ms →
    lastShown uris ((start settings disabled).published ms) = none
  current : ∀ (uris : Text → Bool) name text,
    (∀ m ∈ ms, ∀ u, m.update? = some u → (uris u.1 ↔ Uris.decode u.1 = name)) →
    (∀ before m, Latest (fun _ m => m.Updates name) ms before m →
      ((start settings disabled).after before).settings.linting = true) →
    ((start settings disabled).after ms).documents.lookup name = some text →
    ∃ uri, uris uri ∧ lastShown uris ((start settings disabled).published ms) =
      some (notices disabled (Annotating.parse uri text))
  own : ∀ (s : Server) (m : Message), ((s.receive m).publish m).length ≤ 1 ∧
    ∀ p ∈ (s.receive m).publish m, m.uri? = some p.uri
  silent : ∀ (s : Server) (m : Message), m.update? = none → (s.receive m).publish m = []
  unchanged : ∀ (s : Server) (m : Message), m.IsRequest → s.receive m = s

end Server
end LanguageServer
end QScope
