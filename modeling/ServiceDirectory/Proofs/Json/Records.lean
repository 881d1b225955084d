import Mathlib.Data.List.Forall2
import ServiceDirectory.Json.Record

/-!
# Records are read member by member

An object is read as a record wherever its known members stand and whatever others
stand between them. A member that says what is taken for it anyway may be missing. So
what is read of a record is read of each of its members alone.
-/

namespace ServiceDirectory.Json

/-! ## Lists -/

/-- What is read of the items of a list, item by item. -/
theorem mapM_forall₂ {α β γ : Type} {R : α → β → Prop} {f : α → Option γ} {g : β → Option γ}
    {l : List α} {l' : List β} (h : List.Forall₂ R l l') (hread : ∀ a b, R a b → g b = f a) :
    l'.mapM g = l.mapM f := by
  induction h with
  | nil => rfl
  | cons hab _ ih => rw [List.mapM_cons, List.mapM_cons, hread _ _ hab, ih]

/-- Where each of its items is read back, a list is. -/
theorem mapM_map {α β : Type} {f : α → β} {g : β → Option α} {l : List α}
    (h : ∀ a ∈ l, g (f a) = some a) : (l.map f).mapM g = some l := by
  induction l with
  | nil => rfl
  | cons a rest ih =>
      have hrest := ih fun b hb => h b (List.mem_cons_of_mem _ hb)
      simp [h a (by simp), hrest]

/-- A list is read if each of its items is, and gives what is read of them. -/
theorem mapM_eq_some_iff {α β : Type} {f : α → Option β} {l : List α} {l' : List β} :
    l.mapM f = some l' ↔ List.Forall₂ (fun a b => f a = some b) l l' := by
  constructor
  · intro h
    induction l generalizing l' with
    | nil =>
        obtain rfl := Option.some.inj h
        exact .nil
    | cons a rest ih =>
        simp only [List.mapM_cons, Option.bind_eq_bind, Option.bind_eq_some_iff] at h
        obtain ⟨b, hb, bs, hrest, hl'⟩ := h
        obtain rfl := Option.some.inj hl'
        exact .cons hb (ih hrest)
  · intro h
    induction h with
    | nil => rfl
    | cons hb _ ih => simp [hb, ih]

theorem isSome_mapM {α β : Type} {f : α → Option β} {l : List α} :
    (l.mapM f).isSome = true ↔ ∀ a ∈ l, (f a).isSome = true := by
  induction l with
  | nil => simp
  | cons a rest ih =>
      rw [List.mapM_cons, List.forall_mem_cons, ← ih]
      cases f a with
      | none => simp
      | some b => cases rest.mapM f <;> simp

theorem mem_of_mapM {α β : Type} {g : α → Option β} {l : List α} {l' : List β}
    (h : l.mapM g = some l') {b : β} (hb : b ∈ l') : ∃ a ∈ l, g a = some b := by
  induction l generalizing l' with
  | nil =>
      obtain rfl := Option.some.inj h
      cases hb
  | cons a rest ih =>
      simp only [List.mapM_cons, Option.bind_eq_bind, Option.bind_eq_some_iff] at h
      obtain ⟨c, hc, l'', hrest, hl'⟩ := h
      obtain rfl := Option.some.inj hl'
      rcases List.mem_cons.mp hb with rfl | hb
      · exact ⟨a, by simp, hc⟩
      · obtain ⟨a', ha', hg⟩ := ih hrest hb
        exact ⟨a', List.mem_cons_of_mem _ ha', hg⟩

/-- Where each item tells what it was read from, a list does. -/
theorem eq_map_of_mapM {α β : Type} {f : α → β} {g : β → Option α} {l : List β} {l' : List α}
    (h : l.mapM g = some l') (hback : ∀ a b, g b = some a → b = f a) : l = l'.map f := by
  induction l generalizing l' with
  | nil =>
      obtain rfl := Option.some.inj h
      rfl
  | cons b rest ih =>
      simp only [List.mapM_cons, Option.bind_eq_bind, Option.bind_eq_some_iff] at h
      obtain ⟨a, ha, l'', hrest, hl'⟩ := h
      obtain rfl := Option.some.inj hl'
      rw [List.map_cons, ← hback a b ha, ← ih hrest]

/-! ## Members -/

theorem members?_record (members : List (String × Json)) :
    (record members).members? = some members := by
  apply mapM_map
  intro m _
  rfl

theorem eq_record_of_members? {value : Json} {members : List (String × Json)}
    (h : value.members? = some members) : value = record members := by
  cases value with
  | object entries =>
      have hentries := eq_map_of_mapM h (f := fun m => (some m.1, m.2)) (by
        rintro m ⟨key, value⟩ hm
        obtain ⟨name, rfl, rfl⟩ := Option.map_eq_some_iff.mp hm
        rfl)
      rw [hentries, record]
  | null => cases h
  | bool b => cases h
  | number n => cases h
  | string s => cases h
  | array items => cases h

/-- An object with no field twice is read as its members. -/
theorem Record.ofJson?_of_once {fields : List String} {members : List (String × Json)}
    (h : ∀ f ∈ fields, (members.filter (·.1 = f)).length ≤ 1) :
    Record.ofJson? fields (record members) = some ⟨members⟩ := by
  have hmembers := members?_record members
  rw [record] at hmembers ⊢
  simp only [Record.ofJson?, hmembers]
  exact if_pos (by simpa using h)

/-- A record with different fields is read as its members. -/
theorem Record.ofJson?_record {fields : List String} {members : List (String × Json)}
    (h : members.map (·.1) = fields) (hdistinct : fields.Nodup) :
    Record.ofJson? fields (record members) = some ⟨members⟩ := by
  apply Record.ofJson?_of_once
  intro f _
  have hcount := List.nodup_iff_count.mp hdistinct f
  rw [← h, List.count_eq_countP, List.countP_map] at hcount
  rw [← List.countP_eq_length_filter]
  exact hcount

@[simp] theorem Record.get?_cons (key : String) (value : Json) (rest : List (String × Json))
    (field : String) :
    Record.get? ⟨(key, value) :: rest⟩ field =
      if field = key then some value else Record.get? ⟨rest⟩ field := by
  rw [Record.get?, Record.get?, List.lookup_cons]
  by_cases h : field = key
  · rw [if_pos h, beq_iff_eq.mpr h]
  · rw [if_neg h, beq_eq_false_iff_ne.mpr h]

theorem Record.get?_eq_head? (members : List (String × Json)) (field : String) :
    Record.get? ⟨members⟩ field = (members.filter (·.1 = field)).head?.map (·.2) := by
  induction members with
  | nil => rfl
  | cons m rest ih =>
      obtain ⟨key, value⟩ := m
      rw [Record.get?_cons, ih, List.filter_cons]
      by_cases h : field = key
      · simp [h]
      · simp [h, Ne.symm h]

/-- What holds of a field's values when they are read, and of its default, holds of the field. -/
theorem Record.optional_induction {α : Type} {P : α → Prop} {r : Record} {field : String}
    {read : Json → Option α} {default a : α} (hread : ∀ v a, read v = some a → P a)
    (hdefault : P default) (h : r.optional field read default = some a) : P a := by
  rw [Record.optional] at h
  split at h
  · exact hread _ a h
  · obtain rfl := Option.some.inj h
    exact hdefault

/-! ## Slots -/

/-- The place of a member in a record. -/
structure Slot where
  name : String
  /-- What may stand for the member. -/
  stands : Json → Prop
  /-- Whether the member may be left out. -/
  omissible : Prop

/-- A slot for one value. -/
def Slot.exact (name : String) (value : Json) (omissible : Prop) : Slot :=
  ⟨name, (· = value), omissible⟩

/-- Among members there is one for the slot, or none if it may be left out. -/
def Slot.FilledBy (slot : Slot) (members : List (String × Json)) : Prop :=
  (∃ v, slot.stands v ∧ members.filter (·.1 = slot.name) = [(slot.name, v)]) ∨
    slot.omissible ∧ members.filter (·.1 = slot.name) = []

/-- An object that fills slots. Its members may stand in any order and among any others. -/
def Fills (slots : List Slot) (value : Json) : Prop :=
  ∃ members, value = record members ∧ ∀ slot ∈ slots, slot.FilledBy members

/-- What is found in a record for a slot. -/
def Record.Has (r : Record) (slot : Slot) : Prop :=
  (∃ v, slot.stands v ∧ r.get? slot.name = some v) ∨ slot.omissible ∧ r.get? slot.name = none

theorem Slot.FilledBy.has {slot : Slot} {members : List (String × Json)}
    (h : slot.FilledBy members) : Record.Has ⟨members⟩ slot := by
  rcases h with ⟨v, hv, hone⟩ | ⟨homissible, hnone⟩
  · refine Or.inl ⟨v, hv, ?_⟩
    rw [Record.get?_eq_head?, hone]
    rfl
  · refine Or.inr ⟨homissible, ?_⟩
    rw [Record.get?_eq_head?, hnone]
    rfl

/-- An object that fills the slots of all fields is read as a record. -/
theorem Fills.exists_record {slots : List Slot} {value : Json} (h : Fills slots value)
    {fields : List String} (hfields : slots.map Slot.name = fields) :
    ∃ r, Record.ofJson? fields value = some r ∧ ∀ slot ∈ slots, r.Has slot := by
  obtain ⟨members, rfl, hfilled⟩ := h
  refine ⟨⟨members⟩, ?_, fun slot hslot => (hfilled slot hslot).has⟩
  apply Record.ofJson?_of_once
  intro f hf
  obtain ⟨slot, hslot, rfl⟩ := List.mem_map.mp (hfields ▸ hf)
  rcases hfilled slot hslot with ⟨v, _, hone⟩ | ⟨_, hnone⟩
  · rw [hone]
    exact Nat.le_refl 1
  · rw [hnone]
    exact Nat.zero_le 1

namespace Record.Has

variable {α : Type} {r : Record}

theorem optional {slot : Slot} (h : r.Has slot) {read : Json → Option α} {default : α}
    {result : Option α} (hread : ∀ v, slot.stands v → read v = result)
    (hdefault : slot.omissible → some default = result) :
    r.optional slot.name read default = result := by
  rcases h with ⟨v, hv, hget⟩ | ⟨homissible, hget⟩
  · rw [Record.optional, hget]
    exact hread v hv
  · rw [Record.optional, hget]
    exact hdefault homissible

/-- A value that may be left out where it is the default. -/
theorem optional_exact {name : String} {value : Json} {read : Json → Option α} {a default : α}
    (h : r.Has (.exact name value (a = default))) (hread : read value = some a) :
    r.optional name read default = some a := by
  apply h.optional
  · rintro _ rfl
    exact hread
  · rintro rfl
    rfl

theorem required_exact {name : String} {value : Json} {read : Json → Option α} {a : α}
    (h : r.Has (.exact name value False)) (hread : read value = some a) :
    r.required name read = some a := by
  rcases h with ⟨v, rfl, hget⟩ | ⟨hnever, _⟩
  · rw [Record.required]
    exact (congrArg (·.bind read) hget).trans hread
  · cases hnever

end Record.Has

end ServiceDirectory.Json
