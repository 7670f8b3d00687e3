/-
  DefineFold.Proofs.Files.Write

  Writing makes a file system grow. Making directories writes no file at all, whether it succeeds
  or not (`grows_makeDirectories`), so a text that is refused leaves all files as they were. A text
  that is taken lies at the place to which its path leads and is read there as long as no other
  text is written to that place (`Holds.of_grows`).
-/

import DefineFold.Files.Store
import DefineFold.Proofs.Files.Follow

namespace DefineFold

namespace FileSystem

/-! ## Free names -/

/-- A free name lies in a directory that is there, and nothing lies under it. -/
theorem at?_of_follow_free {root : Entry} {last : LastName} {fuel links : Nat} {trail : Trail}
    {pieces directory : List String} {name : String}
    (h : follow root last fuel links trail pieces = .ok (.free directory name))
    (hvalid : trail.IsValid root) :
    (∃ entries, root.at? directory = some (.directory entries)) ∧
      root.at? (directory ++ [name]) = none := by
  induction fuel generalizing links trail pieces with
  | zero => simp [follow] at h
  | succ fuel ih =>
    cases pieces with
    | nil => simp [follow] at h
    | cons piece rest =>
      obtain ⟨entries, hhere, hstep⟩ := follow_cons_cases h
      rcases hstep with ⟨-, hrest⟩ | ⟨-, hrest⟩ | ⟨-, -, hstep⟩
      · exact ih hrest hvalid
      · exact ih hrest hvalid.tail
      · rcases hstep with ⟨hnone, -, hplace⟩ | ⟨target, -, hlink⟩ | ⟨e, hchild, -, hrest⟩
        · obtain ⟨rfl, rfl⟩ := Place.free.inj hplace
          exact ⟨⟨entries, hvalid.at?_names.trans (congrArg some hhere)⟩,
            (hvalid.at?_concat name).trans hnone⟩
        · rcases hlink with ⟨-, hplace⟩ | ⟨-, fewer, -, hrest⟩
          · simp at hplace
          · exact ih hrest (isValid_linkStart hvalid target)
        · have hvalid' : Trail.IsValid root ((piece, e) :: trail) := ⟨hchild, hvalid⟩
          exact ih hrest hvalid'

theorem at?_of_locate_free {fs : FileSystem} {last : LastName} {path : String}
    {directory : List String} {name : String}
    (h : fs.locate last path = .ok (.free directory name)) :
    (∃ entries, fs.root.at? directory = some (.directory entries)) ∧
      fs.root.at? (directory ++ [name]) = none := by
  obtain ⟨-, start, hstart, fuel, hfollow⟩ := locate_eq_ok h
  exact at?_of_follow_free hfollow (Trail.isValid_of_extend? hstart trivial).1

/-! ## Directories -/

theorem grows_makeDirectory {fs fs' : FileSystem} {path : String}
    (h : fs.makeDirectory path = .ok fs') : Grows (fun _ => False) fs fs' := by
  rw [makeDirectory] at h
  split at h
  · simp at h
  · rename_i directory name hplace
    obtain ⟨⟨entries, hdirectory⟩, hnone⟩ := at?_of_locate_free hplace
    obtain rfl := Except.ok.inj h
    exact ⟨Entry.grows_put_directory (Entry.hasRoom_concat hdirectory name) hnone, rfl⟩
  · simp at h

theorem grows_ensureDirectory (fs : FileSystem) (path : String) :
    Grows (fun _ => False) fs (fs.ensureDirectory path).1 := by
  rw [ensureDirectory]
  split
  · rename_i fs' hmade
    exact grows_makeDirectory hmade
  · exact .refl _ _

/-- What has been made stays, and no file is written. -/
theorem grows_makeDirectories (fuel : Nat) (fs : FileSystem) (path : String) :
    Grows (fun _ => False) fs (makeDirectories fuel fs path).1 := by
  induction fuel generalizing fs path with
  | zero => exact .refl _ _
  | succ fuel ih =>
    rw [makeDirectories]
    split
    · exact .refl _ _
    · split
      · rename_i above _ _
        have habove := ih fs above
        split
        · rename_i fs' e hmade
          rwa [hmade] at habove
        · rename_i fs' hmade
          rw [hmade] at habove
          exact (habove.trans (grows_ensureDirectory fs' path)).mono fun _ h => h.elim id id
      · exact grows_ensureDirectory fs path

/-! ## Texts -/

/-- A path leads to a file with a text at a place. -/
def Holds (fs : FileSystem) (path : String) (place : List String) (text : String) : Prop :=
  fs.locate .follow path = .ok (.found place) ∧ fs.root.at? place = some (.file (some text))

theorem Holds.read {fs : FileSystem} {path : String} {place : List String} {text : String}
    (h : fs.Holds path place text) : fs.read path = .ok text := by
  rw [FileSystem.read, entry, h.1]
  simp only [h.2]

/-- A text stays as long as no other one is written to its place. -/
theorem Holds.of_grows {written : List String → Prop} {old new : FileSystem}
    (hgrows : Grows written old new) {path : String} {place : List String} {text : String}
    (h : old.Holds path place text) (hplace : ¬ written place) : new.Holds path place text := by
  refine ⟨?_, (hgrows.root.texts _ hplace).mpr h.2⟩
  exact locate_of_grows hgrows h.1 nofun nofun

/-- What writing does when it succeeds: the text is at the place, or a device has taken it. -/
theorem write_cases {fs fs' : FileSystem} {path text : String}
    (h : fs.write path text = .ok fs') :
    ∃ place, fs.locate .create path = .ok place ∧
      (Grows (· = place.goal) fs fs' ∧ fs'.root.at? place.goal = some (.file (some text)) ∨
        fs' = fs ∧ fs.root.at? place.goal = some .device) := by
  rw [write] at h
  split at h
  · simp at h
  · rename_i directory name hplace
    obtain ⟨⟨entries, hdirectory⟩, hnone⟩ := at?_of_locate_free hplace
    have hroom := Entry.hasRoom_concat hdirectory name
    obtain rfl := Except.ok.inj h
    exact ⟨_, hplace, .inl ⟨⟨Entry.grows_put hroom (.inl ⟨_, rfl⟩) (.inl hnone), rfl⟩,
      Entry.at?_put_self hroom _⟩⟩
  · rename_i names hplace
    refine ⟨_, hplace, ?_⟩
    split at h
    · rename_i old hold
      have hroom := Entry.hasRoom_of_at? hold
      obtain rfl := Except.ok.inj h
      exact .inl ⟨⟨Entry.grows_put hroom (.inl ⟨_, rfl⟩) (.inr ⟨⟨_, hold⟩, _, rfl⟩), rfl⟩,
        Entry.at?_put_self hroom _⟩
    · rename_i hdevice
      exact .inr ⟨(Except.ok.inj h).symm, hdevice⟩
    · simp at h
    · simp at h
    · simp at h

/-- A text that is refused leaves all files as they were. -/
theorem grows_of_writeText_refused {fs fs' : FileSystem} {path text : String} {fault : FileFault}
    (h : writeText fs path text = (fs', some fault)) : Grows (fun _ => False) fs fs' := by
  rw [writeText] at h
  have hmade := grows_makeDirectories (path.toList.length + 1) fs
    ((FilePath.parent? path).getD "")
  split at h
  · rename_i made e heq
    obtain ⟨rfl, -⟩ := Prod.mk.inj h
    rwa [heq] at hmade
  · rename_i made heq
    rw [heq] at hmade
    split at h
    · obtain ⟨rfl, -⟩ := Prod.mk.inj h
      exact hmade
    · simp at h

/-- A text that is taken lies where its path leads, and nothing else is written, unless a device
    has taken it. -/
theorem exists_place_of_writeText {fs fs' : FileSystem} {path text : String}
    (h : writeText fs path text = (fs', none)) :
    ∃ place, fs.LeadsTo path place ∧ (Grows (· = place) fs fs' ∧ fs'.Holds path place text ∨
      Grows (fun _ => False) fs fs' ∧ fs.root.at? place = some .device) := by
  rw [writeText] at h
  have hmade := grows_makeDirectories (path.toList.length + 1) fs
    ((FilePath.parent? path).getD "")
  split at h
  · simp at h
  · rename_i made heq
    rw [heq] at hmade
    split at h
    · simp at h
    · rename_i after hwrite
      obtain ⟨rfl, -⟩ := Prod.mk.inj h
      obtain ⟨place, hplace, hcases⟩ := write_cases hwrite
      -- The path leads to the place in the end, and growth moves no path.
      have hfree : ∀ {e}, after.root.at? place.goal = some e → ∀ directory name,
          place = .free directory name →
            LastName.create = .create ∧ ∃ e, after.root.at? (directory ++ [name]) = some e := by
        rintro e he directory name rfl
        exact ⟨rfl, e, he⟩
      refine ⟨place.goal, ?_⟩
      rcases hcases with ⟨hgrows, hfile⟩ | ⟨rfl, hdevice⟩
      · have hall : Grows (· = place.goal) fs after := (hmade.trans hgrows).mono (by simp)
        exact ⟨(leadsTo_of_locate hgrows hplace nofun (hfree hfile)).of_grows hall,
          .inl ⟨hall, locate_of_grows hgrows hplace nofun (hfree hfile), hfile⟩⟩
      · have hold : fs.root.at? place.goal = some .device := by
          rcases hmade.root.plain hdevice with hplain | hold
          · exact hplain.elim
          · exact hold
        exact ⟨(leadsTo_of_locate (.refl (fun _ => False) _) hplace nofun
          (hfree hdevice)).of_grows hmade, .inr ⟨hmade, hold⟩⟩

/-- A path to which a text has been written is found, with the text or a device at its place. -/
theorem locate_of_writeText {fs fs' : FileSystem} {path text : String}
    (h : writeText fs path text = (fs', none)) :
    ∃ place, fs'.locate .follow path = .ok (.found place) ∧
      (fs'.root.at? place = some (.file (some text)) ∨ fs'.root.at? place = some .device) := by
  rw [writeText] at h
  split at h
  · simp at h
  · split at h
    · simp at h
    · rename_i made _ after hwrite
      obtain ⟨rfl, -⟩ := Prod.mk.inj h
      obtain ⟨place, hplace, hcases⟩ := write_cases hwrite
      have hfree : ∀ {e}, after.root.at? place.goal = some e → ∀ directory name,
          place = .free directory name →
            LastName.create = .create ∧ ∃ e, after.root.at? (directory ++ [name]) = some e := by
        rintro e he directory name rfl
        exact ⟨rfl, e, he⟩
      rcases hcases with ⟨hgrows, hfile⟩ | ⟨rfl, hdevice⟩
      · exact ⟨place.goal, locate_of_grows hgrows hplace nofun (hfree hfile), .inl hfile⟩
      · exact ⟨place.goal, locate_of_grows (.refl (fun _ => False) _) hplace nofun (hfree hdevice),
          .inr hdevice⟩

end FileSystem

end DefineFold
