import BlockDoc.Files.Tree
import BlockDoc.Proofs.Table

/-!
# Files that stay as they are

A file tree is changed at the place to which a name leads, and nowhere else. No folder is added or
removed, so every name leads to the same place afterwards.

## Main definitions

* `FileTree.place?` — the place to which a name leads
* `FileTree.content?` — the contents of the file of a name
* `FileTree.SameBut` — trees that agree but for the files at some places
-/

namespace BlockDoc

namespace FileTree

/-- The place to which a name leads, if there is a way to it. -/
def place? (t : FileTree) (name : String) : Option (List String) :=
  (t.placeOf (.ofText name)).toOption

/-- The contents of the file of a name, if there is one. -/
def content? (t : FileTree) (name : String) : Option (List UInt8) :=
  (t.read (.ofText name)).toOption

theorem content?_eq (t : FileTree) (name : String) :
    t.content? name = (t.place? name).bind (Table.find? t.files) := by
  unfold content? place? read
  cases t.placeOf (.ofText name) with
  | error f => rfl
  | ok place =>
    cases hfile : Table.find? t.files place with
    | none => simp [Except.toOption, hfile]
    | some octets => simp [Except.toOption, hfile]

theorem toOption_walk_of_folders {t u : FileTree} (h : u.folders = t.folders)
    (folder names : List String) :
    (u.walk folder names).toOption = (t.walk folder names).toOption := by
  have hfolder : ∀ place, u.hasFolder place = t.hasFolder place := by
    intro place
    rw [hasFolder, hasFolder, h]
  induction names generalizing folder with
  | nil => rfl
  | cons name rest ih =>
    cases rest with
    | nil => rfl
    | cons next more =>
      unfold walk
      dsimp only
      rw [hfolder]
      by_cases hnext : t.hasFolder (descend folder name) = true
      · rw [if_pos hnext, if_pos hnext]
        exact ih _
      · rw [if_neg hnext, if_neg hnext]
        rfl

-- ════════════════════════════════════════════════════════════════════════
-- Agreement
-- ════════════════════════════════════════════════════════════════════════

/-- Both trees have the same folders, and the same files but for those at some places. -/
structure SameBut (places : List (List String)) (t u : FileTree) : Prop where
  folders : u.folders = t.folders
  files : ∀ place, place ∉ places → Table.find? u.files place = Table.find? t.files place

section Agreement

variable {places others : List (List String)} {t u v : FileTree} {name : String}
  {octets : List UInt8}

theorem SameBut.refl (places : List (List String)) (t : FileTree) : SameBut places t t :=
  ⟨rfl, fun _ _ => rfl⟩

theorem SameBut.trans (h : SameBut places t u) (h' : SameBut places u v) :
    SameBut places t v where
  folders := h'.folders.trans h.folders
  files place hplace := (h'.files place hplace).trans (h.files place hplace)

theorem SameBut.mono (h : SameBut places t u) (hsub : places ⊆ others) : SameBut others t u where
  folders := h.folders
  files place hplace := h.files place fun hmem => hplace (hsub hmem)

theorem SameBut.place?_eq (h : SameBut places t u) (name : String) :
    u.place? name = t.place? name :=
  toOption_walk_of_folders h.folders [] (Path.ofText name).parts

theorem SameBut.bind_place?_eq (h : SameBut places t u) (name : Option String) :
    name.bind u.place? = name.bind t.place? := by
  cases name with
  | none => rfl
  | some name => exact h.place?_eq name

theorem SameBut.content?_eq (h : SameBut places t u)
    (hname : ∀ place, t.place? name = some place → place ∉ places) :
    u.content? name = t.content? name := by
  rw [FileTree.content?_eq, FileTree.content?_eq, h.place?_eq]
  cases hplace : t.place? name with
  | none => rfl
  | some place => exact h.files place (hname place hplace)

-- ════════════════════════════════════════════════════════════════════════
-- Changes
-- ════════════════════════════════════════════════════════════════════════

theorem place?_of_placeToWrite {place : List String} (h : t.placeToWrite name = .ok place) :
    t.place? name = some place := by
  unfold placeToWrite at h
  unfold place?
  cases hplace : t.placeOf (.ofText name) with
  | error f =>
    rw [hplace] at h
    cases h
  | ok there =>
    rw [hplace] at h
    dsimp only at h
    split at h
    · cases h
    · split at h
      · cases h
      · obtain rfl := Except.ok.inj h
        rfl

theorem sameBut_put (t : FileTree) (place : List String) (octets : List UInt8) :
    SameBut [place] t { t with files := Table.put t.files place octets } where
  folders := rfl
  files _ hother :=
    Table.find?_put_of_ne _ _ fun h => hother (List.mem_singleton.mpr h.symm)

/-- Whatever is made with the place for a file is made with the place of its name. -/
theorem exists_place_of_map {β : Type} {f : List String → β} {b : β}
    (h : (t.placeToWrite name).map f = .ok b) :
    ∃ place, t.place? name = some place ∧ f place = b := by
  cases hplace : t.placeToWrite name with
  | error e =>
    rw [hplace] at h
    cases h
  | ok place =>
    rw [hplace] at h
    exact ⟨place, place?_of_placeToWrite hplace, Except.ok.inj h⟩

/-- A file that is written changes at the place of its name, and has the new contents there. -/
theorem write_eq_ok (h : t.write name octets = .ok u) :
    SameBut (t.place? name).toList t u ∧ u.content? name = some octets := by
  obtain ⟨place, hplace, rfl⟩ := exists_place_of_map h
  have hsame := sameBut_put t place octets
  refine ⟨?_, ?_⟩
  · rw [hplace]
    exact hsame
  · rw [content?_eq, hsame.place?_eq, hplace]
    exact Table.find?_put_self _ _ _

theorem sameBut_append (h : t.append name octets = .ok u) :
    SameBut (t.place? name).toList t u := by
  obtain ⟨place, hplace, rfl⟩ := exists_place_of_map h
  rw [hplace]
  exact sameBut_put t place _

end Agreement

end FileTree

end BlockDoc
