/-!
# Finite maps in key order

A map is the list of its entries in strictly increasing key order. The order of
the keys is lawful, so a map is determined by its lookups and the order of its
entries carries no history of how they were put in.
-/

namespace ServiceDirectory

/-- Entries by strictly increasing key; a later entry for a key replaces the earlier one. -/
structure KeyMap (κ : Type) (α : Type) [Ord κ] where
  entries : List (κ × α) := []
  ordered : entries.Pairwise (fun a b => compare a.1 b.1 = .lt) := by simp
  deriving DecidableEq

namespace KeyMap

variable {κ α β : Type} [Ord κ]

def empty : KeyMap κ α := {}

instance : Inhabited (KeyMap κ α) := ⟨empty⟩

/-- Put an entry in its place, in front of the first greater key. -/
def insertInto (key : κ) (value : α) : List (κ × α) → List (κ × α)
  | [] => [(key, value)]
  | (k, v) :: rest =>
    match compare key k with
    | .lt => (key, value) :: (k, v) :: rest
    | .eq => (key, value) :: rest
    | .gt => (k, v) :: insertInto key value rest

theorem mem_insertInto {key : κ} {value : α} {a : κ × α} {l : List (κ × α)}
    (h : a ∈ insertInto key value l) : a = (key, value) ∨ a ∈ l := by
  induction l with
  | nil => simpa [insertInto] using h
  | cons head rest ih =>
    obtain ⟨k, v⟩ := head
    unfold insertInto at h
    cases hc : compare key k <;> rw [hc] at h <;>
      simp only [List.mem_cons] at h ⊢ <;> grind

theorem ordered_insertInto [Std.TransOrd κ] (key : κ) (value : α) {l : List (κ × α)}
    (h : l.Pairwise (fun a b => compare a.1 b.1 = .lt)) :
    (insertInto key value l).Pairwise (fun a b => compare a.1 b.1 = .lt) := by
  induction l with
  | nil => simp [insertInto]
  | cons head rest ih =>
    obtain ⟨k, v⟩ := head
    obtain ⟨hk, hrest⟩ := List.pairwise_cons.mp h
    unfold insertInto
    cases hc : compare key k with
    | lt =>
      refine List.pairwise_cons.mpr ⟨fun a ha => ?_, h⟩
      rcases List.mem_cons.mp ha with rfl | ha
      · exact hc
      · exact Std.TransCmp.lt_trans hc (hk a ha)
    | eq =>
      exact List.pairwise_cons.mpr
        ⟨fun a ha => Std.TransCmp.lt_of_eq_of_lt hc (hk a ha), hrest⟩
    | gt =>
      refine List.pairwise_cons.mpr ⟨fun a ha => ?_, ih hrest⟩
      rcases mem_insertInto ha with rfl | ha
      · exact Std.OrientedCmp.lt_of_gt hc
      · exact hk a ha

/-- The map with `key` bound to `value`, whatever it was bound to before. -/
def insert [Std.TransOrd κ] (map : KeyMap κ α) (key : κ) (value : α) : KeyMap κ α where
  entries := insertInto key value map.entries
  ordered := ordered_insertInto key value map.ordered

/-- What the map holds for a key. -/
def get? (map : KeyMap κ α) (key : κ) : Option α :=
  (map.entries.find? fun e => compare e.1 key == .eq).map (·.2)

def contains (map : KeyMap κ α) (key : κ) : Bool := (map.get? key).isSome

def erase (map : KeyMap κ α) (key : κ) : KeyMap κ α where
  entries := map.entries.filter fun e => compare e.1 key != .eq
  ordered := map.ordered.filter _

def size (map : KeyMap κ α) : Nat := map.entries.length

def isEmpty (map : KeyMap κ α) : Bool := map.entries.isEmpty

def keys (map : KeyMap κ α) : List κ := map.entries.map (·.1)

/-- The map of a list of entries; of several entries for one key the last one counts. -/
def ofList [Std.TransOrd κ] (entries : List (κ × α)) : KeyMap κ α :=
  entries.foldl (fun map e => map.insert e.1 e.2) empty

theorem ofList_concat [Std.TransOrd κ] (entries : List (κ × α)) (e : κ × α) :
    ofList (entries ++ [e]) = (ofList entries).insert e.1 e.2 :=
  List.foldl_append ..

@[simp] theorem get?_empty (key : κ) : (empty : KeyMap κ α).get? key = none := rfl

theorem get?_insert [Std.TransOrd κ] [Std.LawfulEqOrd κ] [DecidableEq κ]
    (map : KeyMap κ α) (key other : κ) (value : α) :
    (map.insert key value).get? other = if key = other then some value else map.get? other := by
  simp only [get?, insert]
  induction map.entries with
  | nil =>
    by_cases h : key = other
    · simp [insertInto, h]
    · have : compare key other ≠ .eq := fun hc => h (Std.LawfulEqOrd.eq_of_compare hc)
      simp [insertInto, h, this]
  | cons head rest ih =>
    obtain ⟨k, v⟩ := head
    by_cases h : key = other
    · subst h
      unfold insertInto
      cases hc : compare key k with
      | lt => simp
      | eq => simp
      | gt =>
        have : compare k key ≠ .eq := by
          rw [Std.OrientedCmp.lt_of_gt hc]; decide
        simpa [this] using ih
    · have hne : compare key other ≠ .eq := fun hc => h (Std.LawfulEqOrd.eq_of_compare hc)
      rw [if_neg h] at ih ⊢
      unfold insertInto
      cases hc : compare key k with
      | lt => simp [hne]
      | eq =>
        obtain rfl := Std.LawfulEqOrd.eq_of_compare hc
        simp [hne]
      | gt =>
        by_cases hk : compare k other = .eq
        · simp [hk]
        · simpa [hk] using ih

theorem get?_erase [Std.LawfulEqOrd κ] [DecidableEq κ] (map : KeyMap κ α) (key other : κ) :
    (map.erase key).get? other = if key = other then none else map.get? other := by
  simp only [get?, erase]
  induction map.entries with
  | nil => simp
  | cons head rest ih =>
    obtain ⟨k, v⟩ := head
    by_cases hk : compare k key = .eq
    · obtain rfl := Std.LawfulEqOrd.eq_of_compare hk
      by_cases h : k = other
      · simp [h]
      · have : compare k other ≠ .eq := fun hc => h (Std.LawfulEqOrd.eq_of_compare hc)
        simpa [h, this] using ih
    · by_cases ho : compare k other = .eq
      · obtain rfl := Std.LawfulEqOrd.eq_of_compare ho
        have : key ≠ k := fun h => hk (h ▸ Std.ReflOrd.compare_self)
        simp [hk, this]
      · simpa [hk, ho] using ih

/-- A map is determined by its lookups. -/
theorem ext_get? [Std.TransOrd κ] [Std.LawfulEqOrd κ] {a b : KeyMap κ α}
    (h : ∀ key, a.get? key = b.get? key) : a = b := by
  suffices a.entries = b.entries by
    cases a; cases b; simp_all
  obtain ⟨xs, hxs⟩ := a
  obtain ⟨ys, hys⟩ := b
  simp only [get?] at h
  change xs = ys
  induction xs generalizing ys with
  | nil =>
    cases ys with
    | nil => rfl
    | cons y ys => simpa using h y.1
  | cons x xs ih =>
    cases ys with
    | nil => simpa using h x.1
    | cons y ys =>
      obtain ⟨hx, hxs⟩ := List.pairwise_cons.mp hxs
      obtain ⟨hy, hrest⟩ := List.pairwise_cons.mp hys
      have absent : ∀ {z : κ × α} {l : List (κ × α)} {k : κ}, compare k z.1 = .lt →
          (∀ a ∈ l, compare z.1 a.1 = .lt) →
          (((z :: l).find? fun e => compare e.1 k == .eq).map (·.2)) = none := by
        intro z l k hz hl
        simp only [Option.map_eq_none_iff, List.find?_eq_none, List.mem_cons]
        intro a ha hak
        have hak : compare a.1 k = .eq := by simpa using hak
        rcases ha with rfl | ha
        · rw [Std.OrientedCmp.gt_of_lt hz] at hak; simp at hak
        · have := Std.TransCmp.lt_trans hz (hl a ha)
          rw [Std.OrientedCmp.gt_of_lt this] at hak; simp at hak
      have hkey : x.1 = y.1 := by
        cases hc : compare x.1 y.1 with
        | lt => have := h x.1; rw [absent hc hy] at this; simp at this
        | eq => exact Std.LawfulEqOrd.eq_of_compare hc
        | gt =>
          have := h y.1
          rw [absent (Std.OrientedCmp.lt_of_gt hc) hx] at this; simp at this
      have hvalue : x.2 = y.2 := by have := h x.1; simpa [hkey] using this
      have heq : x = y := Prod.ext hkey hvalue
      subst heq
      congr 1
      refine ih hxs ys hrest fun k => ?_
      by_cases hk : compare x.1 k = .eq
      · obtain rfl := Std.LawfulEqOrd.eq_of_compare hk
        have none_of : ∀ l : List (κ × α), (∀ a ∈ l, compare x.1 a.1 = .lt) →
            ((l.find? fun e => compare e.1 x.1 == .eq).map (·.2)) = none := by
          intro l hl
          simp only [Option.map_eq_none_iff, List.find?_eq_none]
          intro a ha hax
          have hax : compare a.1 x.1 = .eq := by simpa using hax
          rw [Std.OrientedCmp.gt_of_lt (hl a ha)] at hax; simp at hax
        rw [none_of xs hx, none_of ys hy]
      · simpa [hk] using h k

end KeyMap

end ServiceDirectory
