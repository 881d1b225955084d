import ServiceDirectory.Proofs.Restart

/-!
# Alike but for the order of hosts

Two snapshots are alike if they differ in the order of their hosts at most. Stores,
archives, texts and answers are alike if whatever snapshots are in them are alike one
by one. What is written of alike snapshots is read as alike snapshots again, so alike
archives are read alike and stay alike when alike snapshots are written to them.
-/

namespace ServiceDirectory

/-! ## Snapshots -/

/-- The same snapshot, but for the order of its hosts. -/
structure Service.Alike (s t : Service) : Prop where
  hosts : s.hosts.Perm t.hosts
  rest : t = { s with hosts := t.hosts }

namespace Service.Alike

variable {s t : Service}

theorem refl (s : Service) : s.Alike s := ⟨List.Perm.refl _, rfl⟩

theorem key_eq (h : s.Alike t) : t.key = s.key := by
  rw [h.rest]
  rfl

theorem name_eq (h : s.Alike t) : t.name = s.name := by
  rw [h.rest]

end Service.Alike

/-! ## What may be missing -/

section Optional

variable {α β γ δ : Type} {R : α → β → Prop}

theorem isSome_of_rel {a : Option α} {b : Option β} (h : Option.Rel R a b) :
    a.isSome = b.isSome := by
  cases h <;> rfl

theorem eq_none_iff_of_rel {a : Option α} {b : Option β} (h : Option.Rel R a b) :
    a = none ↔ b = none := by
  cases h <;> simp

theorem map_of_rel {S : γ → δ → Prop} {f : α → γ} {g : β → δ} {a : Option α} {b : Option β}
    (h : Option.Rel R a b) (hfg : ∀ x y, R x y → S (f x) (g y)) :
    Option.Rel S (a.map f) (b.map g) := by
  cases h with
  | none => exact .none
  | some hxy => exact .some (hfg _ _ hxy)

theorem getD_of_rel {a : Option α} {b : Option β} (h : Option.Rel R a b) {x : α} {y : β}
    (hdefault : R x y) : R (a.getD x) (b.getD y) := by
  cases h with
  | none => exact hdefault
  | some hxy => exact hxy

end Optional

/-- Reading a list item by item does not mind the order of the items. -/
theorem mapM_perm {α β : Type} {g : α → Option β} {l l' : List α} (h : l.Perm l') :
    Option.Rel List.Perm (l.mapM g) (l'.mapM g) := by
  induction h with
  | nil => exact .some (List.Perm.refl _)
  | @cons a l l' _ ih =>
      rw [List.mapM_cons, List.mapM_cons]
      cases g a with
      | none => exact .none
      | some b =>
          generalize l.mapM g = r at ih
          generalize l'.mapM g = r' at ih
          cases ih with
          | none => exact .none
          | some hperm => exact .some (hperm.cons b)
  | swap a b l =>
      simp only [List.mapM_cons]
      cases g a with
      | none => cases g b <;> exact .none
      | some x =>
          cases g b with
          | none => exact .none
          | some y =>
              cases l.mapM g with
              | none => exact .none
              | some rest => exact .some (List.Perm.swap x y rest)
  | @trans l₁ l₂ l₃ _ _ ih ih' =>
      generalize l₁.mapM g = r₁ at ih
      generalize l₂.mapM g = r₂ at ih ih'
      generalize l₃.mapM g = r₃ at ih'
      cases ih with
      | none =>
          cases ih' with
          | none => exact .none
      | some hperm =>
          cases ih' with
          | some hperm' => exact .some (hperm.trans hperm')

/-- What is read of what is written of alike snapshots is alike. -/
theorem Service.Alike.reread? {s t : Service} (h : s.Alike t) :
    Option.Rel Service.Alike s.reread? t.reread? := by
  apply map_of_rel (mapM_perm h.hosts)
  intro hosts hosts' hperm
  exact ⟨hperm, by rw [h.rest]⟩

/-! ## Stores -/

/-- The same keys and stamps, and for each key alike snapshots. -/
structure Store.Alike (store other : Store) : Prop where
  snapshots : store.snapshots.Matches Service.Alike other.snapshots
  stamps : store.stamps = other.stamps

namespace Store.Alike

variable {store other : Store}

theorem get? (h : store.Alike other) (key : ServiceKey) :
    Option.Rel Service.Alike (store.get? key) (other.get? key) := h.snapshots.get? key

theorem contains_eq (h : store.Alike other) (key : ServiceKey) :
    store.contains key = other.contains key := by
  rw [Store.contains_eq, Store.contains_eq, isSome_of_rel (h.get? key)]

theorem set (h : store.Alike other) (key : ServiceKey) {s t : Service} (hs : s.Alike t) :
    (store.set key s).Alike (other.set key t) := ⟨h.snapshots.insert key hs, h.stamps⟩

theorem commit (h : store.Alike other) {s t : Service} (hs : s.Alike t) (clock : Millis) :
    (store.commit s.key s clock).Alike (other.commit t.key t clock) := by
  rw [hs.key_eq]
  exact ⟨(h.set s.key hs).snapshots, congrArg (·.insert s.key clock) h.stamps⟩

end Store.Alike

/-! ## Archives -/

/-- Rows in one slot that hold alike snapshots or none, and of which both are texts or neither. -/
structure Row.Alike (a b : Row) : Prop where
  name : a.name = b.name
  clusters : a.clusters = b.clusters
  payload : a.payload.isText = b.payload.isText
  snapshot : Option.Rel Service.Alike a.snapshot? b.snapshot?

def Table.Alike : Table → Table → Prop
  | .rows held, .rows others => List.Forall₂ Row.Alike held others
  | .dropped noticed, .dropped noticed' => noticed = noticed'
  | _, _ => False

/-- Archives whose rows are alike one by one. -/
def Archive.Alike (archive other : Archive) : Prop := archive.table.Alike other.table

namespace Row.Alike

variable {a b : Row}

theorem sameSlot_eq (h : a.Alike b) {c d : Row} (h' : c.Alike d) :
    a.sameSlot c = b.sameSlot d := by
  rw [sameSlot, sameSlot, h.name, h.clusters, h'.name, h'.clusters]

theorem isText_eq (h : a.Alike b) : a.isText = b.isText := by
  rw [isText, isText, h.name, h.clusters, h.payload]

theorem key?_eq (h : a.Alike b) : a.key? = b.key? := by
  rw [key?, key?, h.name, h.clusters]

theorem ofService {s t : Service} (h : s.Alike t) : (Row.ofService s).Alike (Row.ofService t) := by
  refine ⟨?_, ?_, rfl, ?_⟩
  · rw [Row.ofService, Row.ofService, h.key_eq]
  · rw [Row.ofService, Row.ofService, h.key_eq]
  · rw [Row.snapshot?_ofService, Row.snapshot?_ofService, Service.decode?_print_eq,
      Service.decode?_print_eq]
    exact h.reread?

theorem reading? (h : a.Alike b) :
    Option.Rel (fun e e' => e.1 = e'.1 ∧ e.2.Alike e'.2) a.reading? b.reading? := by
  rw [Row.reading?_eq, Row.reading?_eq, h.key?_eq]
  cases b.key? with
  | none => exact .none
  | some key => exact map_of_rel h.snapshot fun _ _ hs => ⟨rfl, hs⟩

end Row.Alike

namespace Archive

theorem any_eq_of_alike {p q : Row → Bool} {rows others : List Row}
    (h : List.Forall₂ Row.Alike rows others) (hp : ∀ a b, a.Alike b → p a = q b) :
    rows.any p = others.any q := by
  induction h with
  | nil => rfl
  | cons hab _ ih => rw [List.any_cons, List.any_cons, hp _ _ hab, ih]

theorem all_isText_of_alike {rows others : List Row} (h : List.Forall₂ Row.Alike rows others) :
    rows.all Row.isText = others.all Row.isText := by
  rw [List.all_eq_not_any_not, List.all_eq_not_any_not]
  exact congrArg not (any_eq_of_alike h fun _ _ hab => congrArg not hab.isText_eq)

theorem upsert_alike {rows others : List Row} (h : List.Forall₂ Row.Alike rows others)
    {row other : Row} (hrow : row.Alike other) :
    List.Forall₂ Row.Alike (upsert rows row) (upsert others other) := by
  rw [upsert, upsert, any_eq_of_alike h fun a b hab => hab.sameSlot_eq hrow]
  split
  · rw [List.forall₂_map_left_iff, List.forall₂_map_right_iff]
    apply h.imp
    intro a b hab
    rw [hab.sameSlot_eq hrow]
    split
    · exact hrow
    · exact hab
  · exact List.rel_append h (.cons hrow .nil)

theorem entries_alike {rows others : List Row} (h : List.Forall₂ Row.Alike rows others) :
    (entries rows).Matches Service.Alike (entries others) := by
  apply KeyMap.matches_ofList
  exact List.rel_filterMap (fun _ _ hab => hab.reading?) h

namespace Alike

variable {archive other : Archive}

theorem write (h : archive.Alike other) {s t : Service} (hs : s.Alike t) :
    (archive.write s).2.Alike (other.write t).2 := by
  obtain ⟨table⟩ := archive
  obtain ⟨table'⟩ := other
  cases table with
  | rows rows =>
      cases table' with
      | rows others => exact upsert_alike h (Row.Alike.ofService hs)
      | dropped noticed => cases h
  | dropped noticed =>
      cases table' with
      | rows others => cases h
      | dropped noticed => rfl

/-- Archives to which alike snapshots were written are alike. -/
theorem filled {services others : List Service} (h : List.Forall₂ Service.Alike services others) :
    (Archive.filled services).Alike (Archive.filled others) := by
  have hfold : ∀ archive other : Archive, archive.Alike other →
      (services.foldl (fun archive s => (archive.write s).2) archive).Alike
        (others.foldl (fun archive s => (archive.write s).2) other) := by
    induction h with
    | nil => exact fun _ _ h => h
    | cons hs _ ih => exact fun _ _ h => ih _ _ (h.write hs)
  exact hfold {} {} List.Forall₂.nil

/-- Alike archives are read alike, or reading fails for both. -/
theorem read (h : archive.Alike other) :
    Option.Rel (KeyMap.Matches Service.Alike) archive.read.1.toOption other.read.1.toOption := by
  obtain ⟨table⟩ := archive
  obtain ⟨table'⟩ := other
  cases table with
  | rows rows =>
      cases table' with
      | rows others =>
          rw [Archive.read, Archive.read]
          simp only [all_isText_of_alike h]
          split
          · exact .some (entries_alike h)
          · exact .none
      | dropped noticed => cases h
  | dropped noticed =>
      cases table' with
      | rows others => cases h
      | dropped noticed' => exact .none

end Alike

end Archive

end ServiceDirectory
