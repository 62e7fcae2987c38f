import SearchQuery.Host
import Std.Data.HashMap.Lemmas

/-! # Changes of file trees

A file is told by its place: the directory in which it stands and its name there. Making a
directory changes no file, and writing changes the one at the place that the path leads to. A
directory that is there stays, so a path that leads somewhere goes on to lead there. -/
namespace SearchQuery

theorem bind_eq_ok_iff {ε α β : Type} {x : Except ε α} {f : α → Except ε β} {b : β} :
    x >>= f = .ok b ↔ ∃ a, x = .ok a ∧ f a = .ok b := by
  constructor
  · intro h
    cases x with
    | error e => cases h
    | ok a => exact ⟨a, rfl, h⟩
  · rintro ⟨a, rfl, h⟩
    exact h

namespace FileTree

/-- A name in a directory. -/
abbrev Place := Directory.Key × String

/-- The content of the file at a place. -/
def fileAt? (t : FileTree) (place : Place) : Option ByteArray :=
  match t.entries[place]? with
  | some (.file content) => some content
  | _ => none

/-- Both trees have the same files, each with the same content. -/
def SameFiles (t t' : FileTree) : Prop := ∀ place, t'.fileAt? place = t.fileAt? place

/-- Every directory of the first tree is in the second one. -/
def KeepsDirectories (t t' : FileTree) : Prop :=
  ∀ (place : Place) (number : Nat), t.entries[place]? = some (.dir number) →
    t'.entries[place]? = some (.dir number)

/-- The second tree has the same files and all directories of the first. -/
structure Extends (t t' : FileTree) : Prop where
  files : SameFiles t t'
  directories : KeepsDirectories t t'

/-- The path leads to a place at which a file can stand. -/
def LeadsTo (t : FileTree) (path : String) (place : Place) : Prop :=
  ∃ dir name, t.locate path = .ok (.name dir name false) ∧ place = (dir.key, name)

variable {t t' t'' : FileTree}

theorem SameFiles.refl (t : FileTree) : SameFiles t t := fun _ => rfl

theorem SameFiles.trans (h : SameFiles t t') (h' : SameFiles t' t'') : SameFiles t t'' :=
  fun place => (h' place).trans (h place)

theorem KeepsDirectories.refl (t : FileTree) : KeepsDirectories t t := fun _ _ h => h

theorem KeepsDirectories.trans (h : KeepsDirectories t t') (h' : KeepsDirectories t' t'') :
    KeepsDirectories t t'' := fun place number hdir => h' place number (h place number hdir)

theorem Extends.refl (t : FileTree) : Extends t t := ⟨.refl t, .refl t⟩

theorem Extends.trans (h : Extends t t') (h' : Extends t' t'') : Extends t t'' :=
  ⟨h.files.trans h'.files, h.directories.trans h'.directories⟩

/-! ### One change -/

theorem child_eq_ok {dir : Directory} {name : String} {e : Option Entry} :
    t.child dir name = .ok e ↔
      name.utf8ByteSize ≤ Path.maxNameSize ∧ t.entries[(dir.key, name)]? = e := by
  unfold child
  split
  · simp only [reduceCtorEq, false_iff]
    omega
  · simp only [Except.ok.injEq, iff_and_self]
    omega

theorem entries_putFile (dir : Directory) (name : String) (content : ByteArray) (place : Place) :
    (t.putFile dir name content).entries[place]? =
      if (dir.key, name) = place then some (.file content) else t.entries[place]? := by
  simp [putFile, Std.HashMap.getElem?_insert]

theorem entries_putDirectory (dir : Directory) (name : String) (place : Place) :
    (t.putDirectory dir name).entries[place]? =
      if (dir.key, name) = place then some (.dir t.made.size) else t.entries[place]? := by
  simp [putDirectory, Std.HashMap.getElem?_insert]

theorem fileAt?_putFile (dir : Directory) (name : String) (content : ByteArray) (place : Place) :
    (t.putFile dir name content).fileAt? place =
      if (dir.key, name) = place then some content else t.fileAt? place := by
  rw [fileAt?, entries_putFile]
  by_cases hplace : (dir.key, name) = place
  · simp [hplace]
  · simp [hplace, fileAt?]

theorem keepsDirectories_putFile {dir : Directory} {name : String} (content : ByteArray)
    (h : ∀ number, t.entries[(dir.key, name)]? ≠ some (.dir number)) :
    KeepsDirectories t (t.putFile dir name content) := by
  intro place number hdir
  rw [entries_putFile, if_neg]
  · exact hdir
  · rintro rfl
    exact h number hdir

/-- Making a directory changes no file. -/
theorem extends_of_makeDirectory {path : String} (h : t.makeDirectory path = .ok t') :
    Extends t t' := by
  obtain ⟨dest, -, h⟩ := bind_eq_ok_iff.1 h
  cases dest with
  | directory => cases h
  | name dir name slash =>
    obtain ⟨e, hchild, h⟩ := bind_eq_ok_iff.1 h
    cases e with
    | some e => cases h
    | none =>
      cases h
      have hnone := (child_eq_ok.1 hchild).2
      constructor
      · intro place
        rw [fileAt?, entries_putDirectory]
        by_cases hplace : (dir.key, name) = place
        · simp [fileAt?, ← hplace, hnone]
        · simp [fileAt?, hplace]
      · intro place number hdir
        rw [entries_putDirectory, if_neg]
        · exact hdir
        · rintro rfl
          cases hnone.symm.trans hdir

/-- A file is written at the place that the path leads to, where no directory stands. -/
theorem of_write {path : String} {content : ByteArray} (h : t.write path content = .ok t') :
    ∃ dir name, t.locate path = .ok (.name dir name false) ∧
      name.utf8ByteSize ≤ Path.maxNameSize ∧
      (∀ number, t.entries[(dir.key, name)]? ≠ some (.dir number)) ∧
      t' = t.putFile dir name content := by
  obtain ⟨dest, hlocate, h⟩ := bind_eq_ok_iff.1 h
  match dest, hlocate, h with
  | .directory, _, h | .name _ _ true, _, h => cases h
  | .name dir name false, hlocate, h =>
    obtain ⟨e, hchild, h⟩ := bind_eq_ok_iff.1 h
    obtain ⟨hsize, hentry⟩ := child_eq_ok.1 hchild
    refine ⟨dir, name, hlocate, hsize, ?_, ?_⟩
    · rintro number hdir
      rw [← hentry, hdir] at h
      cases h
    · match e, h with
      | none, h | some (.file _), h =>
        cases h
        rfl
      | some (.dir _), h => cases h

theorem write_of_locate {path name : String} {dir : Directory} (content : ByteArray)
    (hlocate : t.locate path = .ok (.name dir name false))
    (hsize : name.utf8ByteSize ≤ Path.maxNameSize)
    (hdir : ∀ number, t.entries[(dir.key, name)]? ≠ some (.dir number)) :
    t.write path content = .ok (t.putFile dir name content) := by
  refine bind_eq_ok_iff.2 ⟨_, hlocate, bind_eq_ok_iff.2 ⟨_, child_eq_ok.2 ⟨hsize, rfl⟩, ?_⟩⟩
  split
  · exact absurd ‹_› (hdir _)
  · rfl

/-- Whether a file can be written does not depend on its content. -/
theorem exists_write {path : String} {content : ByteArray} (h : t.write path content = .ok t')
    (other : ByteArray) : ∃ t'', t.write path other = .ok t'' := by
  obtain ⟨dir, name, hlocate, hsize, hdir, -⟩ := of_write h
  exact ⟨_, write_of_locate other hlocate hsize hdir⟩

theorem read_of_locate {path name : String} {dir : Directory} {content : ByteArray}
    (hlocate : t.locate path = .ok (.name dir name false))
    (hsize : name.utf8ByteSize ≤ Path.maxNameSize)
    (hfile : t.entries[(dir.key, name)]? = some (.file content)) : t.read path = .ok content := by
  have hchild := child_eq_ok.2 ⟨hsize, hfile⟩
  have hfind : t.find path = .ok (some content) :=
    bind_eq_ok_iff.2 ⟨_, hlocate, bind_eq_ok_iff.2 ⟨_, hchild, rfl⟩⟩
  exact bind_eq_ok_iff.2 ⟨_, hfind, rfl⟩

theorem of_read {path : String} {content : ByteArray} (h : t.read path = .ok content) :
    ∃ dir name, t.locate path = .ok (.name dir name false) ∧
      name.utf8ByteSize ≤ Path.maxNameSize ∧
      t.entries[(dir.key, name)]? = some (.file content) := by
  obtain ⟨found, hfind, h⟩ := bind_eq_ok_iff.1 h
  obtain ⟨dest, hlocate, hfind⟩ := bind_eq_ok_iff.1 hfind
  match dest, hlocate, hfind with
  | .directory, _, hfind =>
    cases hfind
    cases h
  | .name dir name slash, hlocate, hfind =>
    obtain ⟨e, hchild, hfind⟩ := bind_eq_ok_iff.1 hfind
    obtain ⟨hsize, hentry⟩ := child_eq_ok.1 hchild
    match e, slash, hfind, hentry, hlocate with
    | none, _, hfind, _, _ => cases hfind
    | some (.dir _), _, hfind, _, _ =>
      cases hfind
      cases h
    | some (.file _), true, hfind, _, _ => cases hfind
    | some (.file _), false, hfind, hentry, hlocate =>
      cases hfind
      cases h
      exact ⟨dir, name, hlocate, hsize, hentry⟩

theorem exists?_of_read {path : String} {content : ByteArray} (h : t.read path = .ok content) :
    t.exists? path = true := by
  obtain ⟨found, hfind, -⟩ := bind_eq_ok_iff.1 h
  rw [exists?, hfind]

/-! ### Paths -/

theorem walk_of_keepsDirectories (h : KeepsDirectories t t') {here dir : Directory}
    {pieces : List String} (hwalk : t.walk here pieces = .ok dir) :
    t'.walk here pieces = .ok dir := by
  induction pieces generalizing here with
  | nil => exact hwalk
  | cons piece rest ih =>
    rw [walk] at hwalk ⊢
    split
    · rw [if_pos ‹_›] at hwalk
      exact ih hwalk
    · rw [if_neg ‹_›] at hwalk
      split
      · rw [if_pos ‹_›] at hwalk
        exact ih hwalk
      · rw [if_neg ‹_›] at hwalk
        cases hchild : t.child here piece with
        | error e => simp [hchild] at hwalk
        | ok e =>
          rw [hchild] at hwalk
          obtain ⟨hsize, hentry⟩ := child_eq_ok.1 hchild
          match e, hwalk with
          | none, hwalk | some (.file _), hwalk => cases hwalk
          | some (.dir number), hwalk =>
            rw [child_eq_ok.2 ⟨hsize, h _ number hentry⟩]
            exact ih hwalk

theorem locate_of_keepsDirectories (h : KeepsDirectories t t') {path : String} {d : Destination}
    (hlocate : t.locate path = .ok d) : t'.locate path = .ok d := by
  obtain ⟨_, hcheck, hlocate⟩ := bind_eq_ok_iff.1 hlocate
  obtain ⟨dir, hwalk, hlocate⟩ := bind_eq_ok_iff.1 hlocate
  have hwalk' := walk_of_keepsDirectories h hwalk
  exact bind_eq_ok_iff.2 ⟨_, hcheck, bind_eq_ok_iff.2 ⟨dir, hwalk', hlocate⟩⟩

/-- Writing changes only the file that the path leads to. -/
theorem leadsTo_of_write {path : String} {content : ByteArray} {place : Place}
    (h : t.write path content = .ok t') (hchange : t'.fileAt? place ≠ t.fileAt? place) :
    t.LeadsTo path place ∧ t'.LeadsTo path place := by
  obtain ⟨dir, name, hlocate, -, hdir, rfl⟩ := of_write h
  have hlocate' := locate_of_keepsDirectories (keepsDirectories_putFile content hdir) hlocate
  rw [fileAt?_putFile] at hchange
  split at hchange
  · exact ⟨⟨dir, name, hlocate, Eq.symm ‹_›⟩, dir, name, hlocate', Eq.symm ‹_›⟩
  · exact absurd rfl hchange

theorem keepsDirectories_of_write {path : String} {content : ByteArray}
    (h : t.write path content = .ok t') : KeepsDirectories t t' := by
  obtain ⟨dir, name, -, -, hdir, rfl⟩ := of_write h
  exact keepsDirectories_putFile content hdir

/-- What is read goes on to be read as long as no directory goes away and the file itself does not
change. -/
theorem read_of_keepsDirectories (hdirs : KeepsDirectories t t') {path : String}
    {content : ByteArray} (h : t.read path = .ok content)
    (hfile : ∀ place, t.LeadsTo path place → t'.fileAt? place = t.fileAt? place) :
    t'.read path = .ok content := by
  obtain ⟨dir, name, hlocate, hsize, hentry⟩ := of_read h
  refine read_of_locate (locate_of_keepsDirectories hdirs hlocate) hsize ?_
  have hsame := hfile (dir.key, name) ⟨dir, name, hlocate, rfl⟩
  have hcontent : t.fileAt? (dir.key, name) = some content := by rw [fileAt?, hentry]
  rw [hcontent, fileAt?] at hsame
  split at hsame
  · cases hsame
    assumption
  · cases hsame

theorem Extends.read_eq_ok (h : Extends t t') {path : String} {content : ByteArray}
    (hread : t.read path = .ok content) : t'.read path = .ok content :=
  read_of_keepsDirectories h.directories hread fun place _ => h.files place

/-- What was written is read. -/
theorem read_of_write {path : String} {content : ByteArray} (h : t.write path content = .ok t') :
    t'.read path = .ok content := by
  obtain ⟨dir, name, hlocate, hsize, hdir, rfl⟩ := of_write h
  have hlocate' := locate_of_keepsDirectories (keepsDirectories_putFile content hdir) hlocate
  exact read_of_locate hlocate' hsize (by rw [entries_putFile, if_pos rfl])

end FileTree
end SearchQuery
