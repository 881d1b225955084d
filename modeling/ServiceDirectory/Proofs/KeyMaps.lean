import Mathlib.Data.List.Forall2
import Mathlib.Data.List.Induction
import ServiceDirectory.KeyMap

/-!
# Maps from lists

Entries with different keys can be put into a map in any order: each of them is
found, and nothing else but what the map held before. Entries whose values are
related one by one make maps whose values are.
-/

namespace ServiceDirectory.KeyMap

variable {κ α : Type} [Ord κ]

/-- No two entries are for one key. -/
def Distinct (entries : List (κ × α)) : Prop := entries.Pairwise fun a b => a.1 ≠ b.1

/-- The first value that a list of entries has for a key. -/
def first? (entries : List (κ × α)) (key : κ) : Option α :=
  (entries.find? fun e => compare e.1 key == .eq).map (·.2)

/-! ## Maps whose values are related -/

section Matches

variable {β : Type} {R : α → β → Prop} {map : KeyMap κ α} {other : KeyMap κ β}

/-- The same keys in the same order, with values that are related one by one. -/
def EntriesMatch (R : α → β → Prop) : List (κ × α) → List (κ × β) → Prop :=
  List.Forall₂ fun a b => a.1 = b.1 ∧ R a.2 b.2

/-- Two maps with the same keys, whose values are related key by key. -/
def Matches (R : α → β → Prop) (map : KeyMap κ α) (other : KeyMap κ β) : Prop :=
  EntriesMatch R map.entries other.entries

theorem Matches.get? (h : Matches R map other) (key : κ) :
    Option.Rel R (map.get? key) (other.get? key) := by
  unfold Matches EntriesMatch at h
  rw [KeyMap.get?, KeyMap.get?]
  generalize map.entries = entries at h
  generalize other.entries = entries' at h
  induction h with
  | nil => exact .none
  | @cons a b rest rest' hab _ ih =>
      obtain ⟨hkey, hvalue⟩ := hab
      rw [List.find?_cons, List.find?_cons, hkey]
      cases compare b.1 key == .eq with
      | true => exact .some hvalue
      | false => exact ih

variable [Std.TransOrd κ]

theorem Matches.insert (h : Matches R map other) (key : κ) {a : α} {b : β} (hab : R a b) :
    Matches R (map.insert key a) (other.insert key b) := by
  have hinto : ∀ {l : List (κ × α)} {l' : List (κ × β)}, EntriesMatch R l l' →
      EntriesMatch R (insertInto key a l) (insertInto key b l') := by
    intro l l' hl
    induction hl with
    | nil => exact .cons ⟨rfl, hab⟩ .nil
    | @cons e e' rest rest' he hrest ih =>
        obtain ⟨k, v⟩ := e
        obtain ⟨k', v'⟩ := e'
        obtain ⟨rfl, hvalue⟩ := he
        rw [insertInto, insertInto]
        cases compare key k with
        | lt => exact .cons ⟨rfl, hab⟩ (.cons ⟨rfl, hvalue⟩ hrest)
        | eq => exact .cons ⟨rfl, hab⟩ hrest
        | gt => exact .cons ⟨rfl, hvalue⟩ ih
  exact hinto h

theorem Matches.overlay (h : Matches R map other) {entries : List (κ × α)}
    {entries' : List (κ × β)} (hentries : EntriesMatch R entries entries') :
    Matches R (entries.foldl (fun map e => map.insert e.1 e.2) map)
      (entries'.foldl (fun map e => map.insert e.1 e.2) other) := by
  induction hentries generalizing map other with
  | nil => exact h
  | @cons a b rest rest' hab _ ih =>
      rw [List.foldl_cons, List.foldl_cons, hab.1]
      exact ih (h.insert b.1 hab.2)

theorem matches_ofList {entries : List (κ × α)} {entries' : List (κ × β)}
    (h : EntriesMatch R entries entries') : Matches R (ofList entries) (ofList entries') := by
  have hempty : Matches R (empty : KeyMap κ α) (empty : KeyMap κ β) := List.Forall₂.nil
  exact hempty.overlay h

end Matches

/-! ## Entries with different keys -/

variable [Std.LawfulEqOrd κ]

theorem distinct_entries (map : KeyMap κ α) : Distinct map.entries := by
  apply map.ordered.imp
  intro a b hlt heq
  simp [heq] at hlt

variable [DecidableEq κ]

theorem first?_cons (e : κ × α) (rest : List (κ × α)) (key : κ) :
    first? (e :: rest) key = if e.1 = key then some e.2 else first? rest key := by
  rw [first?, List.find?_cons]
  by_cases hkey : e.1 = key
  · simp [hkey]
  · have hne : (compare e.1 key == .eq) = false :=
      beq_eq_false_iff_ne.mpr fun hc => hkey (Std.LawfulEqCmp.eq_of_compare hc)
    rw [hne, if_neg hkey, first?]

theorem first?_eq_none {entries : List (κ × α)} {key : κ} (h : ∀ e ∈ entries, e.1 ≠ key) :
    first? entries key = none := by
  induction entries with
  | nil => rfl
  | cons e rest ih =>
      rw [first?_cons, if_neg (h e (by simp)), ih fun a ha => h a (List.mem_cons_of_mem _ ha)]

theorem first?_eq_some_iff {entries : List (κ × α)} (h : Distinct entries) {key : κ}
    {value : α} : first? entries key = some value ↔ (key, value) ∈ entries := by
  induction entries with
  | nil => simp [first?]
  | cons e rest ih =>
      obtain ⟨he, hrest⟩ := List.pairwise_cons.mp h
      rw [first?_cons, List.mem_cons]
      by_cases hkey : e.1 = key
      · have habsent : (key, value) ∉ rest := fun hmem => he _ hmem hkey
        simp [hkey, habsent, Prod.ext_iff, eq_comm]
      · simp [hkey, ih hrest, Prod.ext_iff, Ne.symm hkey]

theorem get?_eq_some_iff_mem (map : KeyMap κ α) {key : κ} {value : α} :
    map.get? key = some value ↔ (key, value) ∈ map.entries :=
  first?_eq_some_iff map.distinct_entries

/-- A key that is found has exactly one entry. -/
theorem filter_entries {map : KeyMap κ α} {key : κ} {value : α} (h : map.get? key = some value) :
    map.entries.filter (·.1 = key) = [(key, value)] := by
  obtain ⟨before, after, hsplit⟩ := List.append_of_mem ((get?_eq_some_iff_mem map).mp h)
  have hdistinct := map.distinct_entries
  rw [hsplit] at hdistinct ⊢
  obtain ⟨_, hafter, hbefore⟩ := List.pairwise_append.mp hdistinct
  have hleft : before.filter (·.1 = key) = [] := by
    apply List.filter_eq_nil_iff.mpr
    intro e he
    simpa using hbefore e he _ List.mem_cons_self
  have hright : after.filter (·.1 = key) = [] := by
    apply List.filter_eq_nil_iff.mpr
    intro e he
    simpa using Ne.symm ((List.pairwise_cons.mp hafter).1 e he)
  rw [List.filter_append, List.filter_cons_of_pos (by simp), hleft, hright, List.nil_append]

/-- The entries for a key: one if it is found, and none otherwise. -/
theorem filter_entries_eq (map : KeyMap κ α) (key : κ) :
    map.entries.filter (·.1 = key) = ((map.get? key).map (key, ·)).toList := by
  cases h : map.get? key with
  | some value => exact filter_entries h
  | none =>
      apply List.filter_eq_nil_iff.mpr
      intro e he
      have hne : e.1 ≠ key := by
        rintro rfl
        rw [(get?_eq_some_iff_mem map).mpr he] at h
        cases h
      simpa using hne

variable [Std.TransOrd κ]

/-- Entries put in one after another are found, the others are as they were. -/
theorem get?_foldl_insert {entries : List (κ × α)} (h : Distinct entries) (map : KeyMap κ α)
    (key : κ) :
    (entries.foldl (fun map e => map.insert e.1 e.2) map).get? key =
      (first? entries key).or (map.get? key) := by
  induction entries generalizing map with
  | nil => rfl
  | cons e rest ih =>
      obtain ⟨he, hrest⟩ := List.pairwise_cons.mp h
      rw [List.foldl_cons, ih hrest, get?_insert, first?_cons]
      by_cases hkey : e.1 = key
      · have hnone : first? rest key = none :=
          first?_eq_none fun a ha heq => he a ha (hkey.trans heq.symm)
        rw [if_pos hkey, if_pos hkey, hnone, Option.none_or, Option.some_or]
      · rw [if_neg hkey, if_neg hkey]

/-- A map is the map of its entries. -/
theorem ofList_entries (map : KeyMap κ α) : ofList map.entries = map := by
  apply ext_get?
  intro key
  rw [ofList, get?_foldl_insert map.distinct_entries]
  exact Option.or_none

/-- Of several entries for a key the last one is found. -/
theorem get?_ofList (entries : List (κ × α)) (key : κ) :
    (ofList entries).get? key = (entries.filter (·.1 = key)).getLast?.map (·.2) := by
  induction entries using List.reverseRecOn with
  | nil => rfl
  | append_singleton entries e ih =>
      rw [ofList_concat, get?_insert, List.filter_append]
      by_cases hkey : e.1 = key
      · simp [hkey]
      · simp [hkey, ih]

theorem get?_ofList_eq_some_iff {entries : List (κ × α)} (h : Distinct entries) {key : κ}
    {value : α} : (ofList entries).get? key = some value ↔ (key, value) ∈ entries := by
  rw [ofList, get?_foldl_insert h, get?_empty, Option.or_none, first?_eq_some_iff h]

/-- A map is the map of its entries in any order. -/
theorem ofList_of_perm {entries : List (κ × α)} {map : KeyMap κ α}
    (h : entries.Perm map.entries) : ofList entries = map := by
  have hdistinct : Distinct entries := (h.pairwise_iff Ne.symm).mpr map.distinct_entries
  apply ext_get?
  intro key
  apply Option.ext
  intro value
  rw [get?_ofList_eq_some_iff hdistinct, get?_eq_some_iff_mem, h.mem_iff]

end ServiceDirectory.KeyMap
