/-
  DefineFold.Proofs.Files.Regular

  Trees as a directory can hold them: no name comes twice in a directory, and each is one that a
  path can spell. There a name leads to each entry that bears it (`Entry.child?_eq_some_iff`), and
  whatever a path leads to is such a tree again (`FileSystem.isRegular_of_entry`).
-/

import DefineFold.Proofs.Files.Follow
import DefineFold.Proofs.Files.Paths

namespace DefineFold

/-! ## Regular file systems -/

/-- A name that a directory can hold. -/
def IsRegularName (name : String) : Prop :=
  FilePath.IsSegment name ∧ textLength name ≤ FileSystem.nameLimit

instance (name : String) : Decidable (IsRegularName name) :=
  inferInstanceAs (Decidable (_ ∧ _))

theorem IsRegularName.isName {name : String} (h : IsRegularName name) : FileSystem.IsName name :=
  ⟨h.1.1, h.1.2.1, h.1.2.2.1, h.2⟩

namespace Entry

mutual

/-- Whether every directory below an entry holds names that a directory can hold, and no name
    twice. -/
def isRegular : Entry → Bool
  | .directory entries => areRegular entries
  | _ => true

/-- The same for the entries of a directory. -/
def areRegular : List (String × Entry) → Bool
  | [] => true
  | (name, e) :: rest =>
    decide (IsRegularName name) && rest.all (fun x => x.1 != name) && e.isRegular &&
      areRegular rest

end

mutual

/-- Whether all that lies below an entry is files and directories. -/
def isPlainTree : Entry → Bool
  | .file _ => true
  | .directory entries => arePlainTrees entries
  | _ => false

/-- The same for the entries of a directory. -/
def arePlainTrees : List (String × Entry) → Bool
  | [] => true
  | (_, e) :: rest => e.isPlainTree && arePlainTrees rest

end

theorem areRegular_cons {name : String} {e : Entry} {rest : List (String × Entry)}
    (h : areRegular ((name, e) :: rest) = true) :
    IsRegularName name ∧ (∀ x ∈ rest, x.1 ≠ name) ∧ e.isRegular = true ∧
      areRegular rest = true := by
  simpa [areRegular, and_assoc] using h

/-- A property of entries that goes down to the entries of a directory holds of all that lies
    below. -/
theorem of_at? {motive : Entry → Prop}
    (hchild : ∀ {e name below}, motive e → e.child? name = some below → motive below)
    {e found : Entry} {names : List String} (he : motive e) (h : e.at? names = some found) :
    motive found := by
  induction names generalizing e with
  | nil =>
    obtain rfl := Option.some.inj h
    exact he
  | cons name names ih =>
    obtain ⟨-, below, -, hbelow, hfound⟩ := exists_directory_of_at?_cons h
    exact ih (hchild he hbelow) hfound

theorem isRegular_of_child? {e below : Entry} {name : String} (he : e.isRegular = true)
    (h : e.child? name = some below) : below.isRegular = true := by
  cases e with
  | directory entries =>
    induction entries with
    | nil => simp [child?] at h
    | cons x rest ih =>
      obtain ⟨n, e⟩ := x
      obtain ⟨-, -, hregular, hrest⟩ := areRegular_cons he
      rw [child?_cons] at h
      split at h
      · obtain rfl := Option.some.inj h
        exact hregular
      · exact ih hrest h
  | _ => simp [child?] at h

theorem isPlainTree_of_child? {e below : Entry} {name : String} (he : e.isPlainTree = true)
    (h : e.child? name = some below) : below.isPlainTree = true := by
  cases e with
  | directory entries =>
    induction entries with
    | nil => simp [child?] at h
    | cons x rest ih =>
      obtain ⟨n, e⟩ := x
      obtain ⟨hplain, hrest⟩ : e.isPlainTree = true ∧ arePlainTrees rest = true := by
        simpa [isPlainTree, arePlainTrees] using he
      rw [child?_cons] at h
      split at h
      · obtain rfl := Option.some.inj h
        exact hplain
      · exact ih hrest h
  | _ => simp [child?] at h

theorem isPlain_of_isPlainTree {e : Entry} (h : e.isPlainTree = true) : e.IsPlain := by
  cases e with
  | file => trivial
  | directory => trivial
  | _ => simp [isPlainTree] at h

/-- Where no name comes twice, a name leads to each entry that bears it. -/
theorem child?_eq_some_iff {entries : List (String × Entry)} (h : areRegular entries = true)
    {name : String} {e : Entry} :
    (directory entries).child? name = some e ↔ (name, e) ∈ entries := by
  induction entries with
  | nil => simp [child?]
  | cons x rest ih =>
    obtain ⟨n, e'⟩ := x
    obtain ⟨-, hdistinct, -, hrest⟩ := areRegular_cons h
    rw [child?_cons, List.mem_cons, ← ih hrest]
    by_cases hname : name = n
    · subst hname
      rw [if_pos rfl]
      constructor
      · intro heq
        exact .inl (by rw [Option.some.inj heq])
      · rintro (heq | hmem)
        · rw [(Prod.mk.inj heq).2]
        · -- The name would come twice.
          exact absurd rfl (hdistinct _ ((ih hrest).mp hmem))
    · rw [if_neg hname]
      constructor
      · exact .inr
      · rintro (heq | hmem)
        · exact absurd (Prod.mk.inj heq).1 hname
        · exact hmem

theorem isRegularName_of_mem {entries : List (String × Entry)} (h : areRegular entries = true)
    {x : String × Entry} (hx : x ∈ entries) : IsRegularName x.1 := by
  induction entries with
  | nil => simp at hx
  | cons y rest ih =>
    obtain ⟨hname, -, -, hrest⟩ := areRegular_cons h
    rcases List.mem_cons.mp hx with rfl | hx
    · exact hname
    · exact ih hrest hx

theorem isRegularName_of_at? {top found : Entry} {names : List String} (h : top.isRegular = true)
    (hfound : top.at? names = some found) : ∀ name ∈ names, IsRegularName name := by
  induction names generalizing top with
  | nil => simp
  | cons name names ih =>
    obtain ⟨entries, below, rfl, hchild, hrest⟩ := exists_directory_of_at?_cons hfound
    refine List.forall_mem_cons.mpr ⟨?_, ih (isRegular_of_child? h hchild) hrest⟩
    exact isRegularName_of_mem h ((child?_eq_some_iff h).mp hchild)

end Entry

/-! ## What a path leads to -/

namespace FileSystem

theorem entry_of_locate {fs : FileSystem} {last : LastName} {path : String} {names : List String}
    {e : Entry} (h : fs.locate last path = .ok (.found names)) (he : fs.root.at? names = some e) :
    fs.entry last path = .ok e := by
  rw [entry, h]
  simp only [he]

theorem locate_of_entry {fs : FileSystem} {last : LastName} {path : String} {e : Entry}
    (h : fs.entry last path = .ok e) :
    ∃ names, fs.locate last path = .ok (.found names) ∧ fs.root.at? names = some e := by
  rw [entry] at h
  split at h
  · simp at h
  · simp at h
  · rename_i names hlocate
    split at h
    · rename_i found hfound
      obtain rfl := Except.ok.inj h
      exact ⟨names, hlocate, hfound⟩
    · simp at h

theorem exists_of_isDirectory {fs : FileSystem} {path : String} (h : fs.isDirectory path = true) :
    ∃ names entries, fs.locate .follow path = .ok (.found names) ∧
      fs.root.at? names = some (.directory entries) := by
  rw [isDirectory] at h
  split at h
  · rename_i entries hentry
    obtain ⟨names, hlocate, hfound⟩ := locate_of_entry hentry
    exact ⟨names, entries, hlocate, hfound⟩
  · simp at h

theorem isRegular_of_entry {fs : FileSystem} (hregular : fs.root.isRegular = true)
    {last : LastName} {path : String} {e : Entry} (h : fs.entry last path = .ok e) :
    e.isRegular = true := by
  obtain ⟨names, -, hfound⟩ := locate_of_entry h
  exact Entry.of_at? Entry.isRegular_of_child? hregular hfound

/-- What a path leads to when its last name is kept is a link, or what it leads to anyway. -/
theorem entry_keep (fs : FileSystem) (path : String) :
    fs.entry .keep path = fs.entry .follow path ∨
      ∃ target, fs.entry .keep path = .ok (.link target) := by
  rw [entry, entry]
  rcases fs.locate_keep path with hsame | ⟨names, target, hfound, hlink⟩
  · exact .inl (by rw [hsame])
  · exact .inr ⟨target, by simp only [hfound, hlink]⟩

end FileSystem

end DefineFold
