import Mathlib.Data.List.Infix
import Mathlib.Data.List.Nodup
import ServiceDirectory.Directory.Basic
import ServiceDirectory.Proofs.Codec

/-!
# Rendered keys

A rendered key joins a name and clusters with a separator that both of them may hold.
Where the name neither holds the separator nor ends in half of it, the separator stands
first where the name ends, so the key can be told from its text whatever the clusters
are. Where this is so of all names, a dump has one member for each snapshot, and the
snapshot can be read from it, in whatever order the members stand.
-/

namespace ServiceDirectory

namespace ServiceKey

/-- The name neither holds the separator nor ends in half of it. -/
def Separable (key : ServiceKey) : Prop :=
  ¬ separator.toList <:+: key.name.toList ∧ key.name.toList.getLast? ≠ some '@'

instance (key : ServiceKey) : Decidable key.Separable := inferInstanceAs (Decidable (_ ∧ _))

/-- A text that goes on with the separator ends where the separator stands first. -/
theorem eq_nil_of_separator {name extra clusters rest : List Char}
    (hfree : ¬ separator.toList <:+: name ++ extra)
    (hlast : (name ++ extra).getLast? ≠ some '@')
    (h : separator.toList ++ clusters = extra ++ rest) : extra = [] := by
  have hseparator : separator.toList = ['@', '@'] := rfl
  rw [hseparator] at hfree h
  match extra with
  | [] => rfl
  | [c] =>
      obtain ⟨rfl, _⟩ := List.cons.inj h
      exact absurd List.getLast?_concat hlast
  | c :: c' :: extra =>
      obtain ⟨rfl, htail⟩ := List.cons.inj h
      obtain ⟨rfl, _⟩ := List.cons.inj htail
      exact absurd ⟨name, extra, by simp⟩ hfree

/-- What stands before and behind the first separator. -/
theorem append_separator_inj {name name' clusters clusters' : List Char}
    (hfree : ¬ separator.toList <:+: name) (hlast : name.getLast? ≠ some '@')
    (hfree' : ¬ separator.toList <:+: name') (hlast' : name'.getLast? ≠ some '@')
    (h : name ++ (separator.toList ++ clusters) = name' ++ (separator.toList ++ clusters')) :
    name = name' ∧ clusters = clusters' := by
  have hname : name = name' := by
    rcases List.append_eq_append_iff.mp h with ⟨extra, rfl, hrest⟩ | ⟨extra, rfl, hrest⟩
    · rw [eq_nil_of_separator hfree' hlast' hrest, List.append_nil]
    · rw [eq_nil_of_separator hfree hlast hrest, List.append_nil]
  subst hname
  exact ⟨rfl, List.append_cancel_left (List.append_cancel_left h)⟩

theorem toList_render (key : ServiceKey) :
    key.render.toList =
      if key.clusters = "" then key.name.toList
      else key.name.toList ++ (separator.toList ++ key.clusters.toList) := by
  rw [render]
  by_cases h : key.clusters = ""
  · simp [h]
  · simp [h]

theorem render_inj {a b : ServiceKey} (ha : a.Separable) (hb : b.Separable)
    (h : a.render = b.render) : a = b := by
  obtain ⟨name, clusters⟩ := a
  obtain ⟨name', clusters'⟩ := b
  obtain ⟨hfree, hlast⟩ := ha
  obtain ⟨hfree', hlast'⟩ := hb
  have htext := congrArg String.toList h
  rw [toList_render, toList_render] at htext
  dsimp only at hfree hlast hfree' hlast' htext
  split_ifs at htext with hnone hnone' hnone'
  · rw [hnone, hnone', String.toList_inj.mp htext]
  · exact absurd ⟨name'.toList, clusters'.toList, by rw [htext, List.append_assoc]⟩ hfree
  · exact absurd ⟨name.toList, clusters.toList, by rw [← htext, List.append_assoc]⟩ hfree'
  · obtain ⟨hname, hclusters⟩ := append_separator_inj hfree hlast hfree' hlast' htext
    rw [String.toList_inj.mp hname, String.toList_inj.mp hclusters]

example : (⟨"a@", "b"⟩ : ServiceKey).render = (⟨"a", "@b"⟩ : ServiceKey).render := by decide

end ServiceKey

namespace Directory

variable {d : Directory}

theorem nodup_render (h : ∀ e ∈ d.store.items, e.1.Separable) :
    (d.store.items.map (·.1.render)).Nodup := by
  apply List.pairwise_map.mpr
  refine (KeyMap.distinct_entries d.store.snapshots).imp_of_mem ?_
  intro a b ha hb hne heq
  exact hne (ServiceKey.render_inj (h a ha) (h b hb) heq)

/-- Where keys are rendered differently, nothing is lost among the rendered keys. -/
theorem perm_entries_rendering {copy : List (ServiceKey × Service)}
    (h : (copy.map (·.1.render)).Nodup) :
    (rendering copy).entries.Perm (copy.map fun e => (e.1.render, e.2)) := by
  have hdistinct : KeyMap.Distinct (copy.map fun e => (e.1.render, e.2)) :=
    List.pairwise_map.mpr (List.pairwise_map.mp h)
  refine (List.perm_ext_iff_of_nodup ?_ ?_).mpr fun e => ?_
  · exact (rendering copy).distinct_entries.imp fun hne heq => hne (congrArg Prod.fst heq)
  · exact hdistinct.imp fun hne heq => hne (congrArg Prod.fst heq)
  · rw [← KeyMap.get?_eq_some_iff_mem, rendering, KeyMap.get?_ofList_eq_some_iff hdistinct]

theorem parse?_printMembers (members : List (String × Service)) :
    Json.parse? (printMembers members) =
      some (Json.record (members.map fun e => (e.1, e.2.toJson))) := by
  apply Json.parse?_print
  apply Json.spellable_record
  intro m hm
  obtain ⟨e, _, rfl⟩ := List.mem_map.mp hm
  exact e.2.spellable_toJson

/-- Where keys are rendered differently, the members of a dump are the rendered entries. -/
theorem perm_members {copy : List (ServiceKey × Service)} {members : List (String × Service)}
    (hcopy : d.store.IsCopy copy) (hmembers : members.Perm (rendering copy).entries)
    (h : (d.store.items.map (·.1.render)).Nodup) :
    members.Perm (d.store.items.map fun e => (e.1.render, e.2)) := by
  have hnodup : (copy.map (·.1.render)).Nodup := (hcopy.map _).nodup_iff.mpr h
  exact (hmembers.trans (perm_entries_rendering hnodup)).trans (hcopy.map _)

/-- Of a store all of whose names are told from their clusters, a dump is an object with one member
for each snapshot. The member is under the rendered key, and is read as the snapshot. This is so
in whatever order the entries are copied and the members are written. -/
theorem dump_faithful (d : Directory) (hnames : ∀ e ∈ d.store.items, e.1.Separable)
    (hfinite : ∀ e ∈ d.store.items, ∀ i ∈ e.2.hosts, i.weight.isFinite = true)
    (hreads : ∀ e ∈ d.store.items, ∀ i ∈ e.2.hosts, i.weight.ReadsBack) :
    (d.store.items.map (·.1.render)).Nodup ∧ d.IsDump d.dump ∧
      ∀ text, d.IsDump text →
        ∃ members, Json.parse? text = some (Json.record members) ∧
          (members.map Prod.fst).Perm (d.store.items.map (·.1.render)) ∧
          ∀ key s, (key, s) ∈ d.store.items →
            ∃ value, members.filter (·.1 = key.render) = [(key.render, value)] ∧
              Service.ofJson? value = some s := by
  have hnodup := nodup_render hnames
  refine ⟨hnodup, d.isDump_dump, ?_⟩
  rintro _ ⟨copy, members, hcopy, hmembers, rfl⟩
  have hperm := perm_members hcopy hmembers hnodup
  refine ⟨_, parse?_printMembers members, ?_, fun key s hs => ⟨s.toJson, ?_, ?_⟩⟩
  · have hkeys := hperm.map Prod.fst
    rw [List.map_map] at hkeys
    rw [List.map_map]
    exact hkeys
  · have hmem : (key.render, s) ∈ (rendering copy).entries :=
      (hmembers.symm.trans hperm).mem_iff.mpr (List.mem_map.mpr ⟨(key, s), hs, rfl⟩)
    have hone := KeyMap.filter_entries ((KeyMap.get?_eq_some_iff_mem _).mpr hmem)
    have hfiltered := hmembers.filter (·.1 = key.render)
    rw [hone, List.perm_singleton] at hfiltered
    rw [List.filter_map]
    exact congrArg (List.map fun e : String × Service => (e.1, e.2.toJson)) hfiltered
  · rw [Service.ofJson?_of_fills s.fills_toJson,
      Service.reread?_eq_some fun i hi => ⟨hfinite _ hs i hi, hreads _ hs i hi⟩]

/-- Snapshots whose names and clusters hold what separates them. -/
def entangled : Directory :=
  start {} true <| some <| KeyMap.ofList <|
    [{ Service.placeholder "a@b" "x@@y" with hosts := [{ ip := "10.0.0.1", port := 80 }] },
      Service.placeholder "a@b" "", Service.placeholder "" "@@", Service.placeholder "" ""].map
      fun s => (s.key, s)

theorem entangled_dump_faithful :
    entangled.store.items.map (·.1.render) = ["", "@@@@", "a@b", "a@b@@x@@y"] ∧
      ∃ members, Json.parse? entangled.dump = some (Json.record members) ∧
        (members.map Prod.fst).Perm ["", "@@@@", "a@b", "a@b@@x@@y"] := by
  have hkeys : entangled.store.items.map (·.1.render) = ["", "@@@@", "a@b", "a@b@@x@@y"] := by
    decide +kernel
  obtain ⟨_, hdump, hfaithful⟩ :=
    dump_faithful entangled (by decide +kernel) (by decide +kernel) (by decide +kernel)
  obtain ⟨members, hmembers, hperm, _⟩ := hfaithful _ hdump
  exact ⟨hkeys, members, hmembers, hkeys ▸ hperm⟩

end Directory

end ServiceDirectory
