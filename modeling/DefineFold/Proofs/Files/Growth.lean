/-
  DefineFold.Proofs.Files.Growth

  What becomes of a file system when files are written and directories are made: it grows. What
  was there stays what it was, a directory a directory and a link the same link; only the texts of
  files may be others, and only at the places that were written. No link and no device is ever new.
  One step of growth is an entry put where there was none, or a file put in the place of a file
  (`Entry.grows_put`).
-/

import DefineFold.Files.System

namespace DefineFold

namespace Entry

/-! ## What lies at names -/

theorem at?_append (e : Entry) (names more : List String) :
    e.at? (names ++ more) = (e.at? names).bind (·.at? more) := by
  induction names generalizing e with
  | nil => rfl
  | cons name names ih =>
    rw [List.cons_append, at?, at?]
    cases e.child? name with
    | none => rfl
    | some below => exact ih below

theorem at?_concat (e : Entry) (names : List String) (name : String) :
    e.at? (names ++ [name]) = (e.at? names).bind (·.child? name) := by
  rw [at?_append]
  cases e.at? names with
  | none => rfl
  | some below =>
    rw [Option.bind_some, Option.bind_some, at?]
    cases below.child? name <;> rfl

/-- Names lead further only below a directory. -/
theorem exists_directory_of_at?_cons {e found : Entry} {name : String} {names : List String}
    (h : e.at? (name :: names) = some found) :
    ∃ entries below, e = .directory entries ∧ e.child? name = some below ∧
      below.at? names = some found := by
  obtain ⟨below, hbelow, hfound⟩ := Option.bind_eq_some_iff.mp h
  cases e with
  | directory entries => exact ⟨entries, below, rfl, hbelow, hfound⟩
  | _ => simp [child?] at hbelow

theorem child?_cons (name : String) (e : Entry) (rest : List (String × Entry)) (other : String) :
    (directory ((name, e) :: rest)).child? other =
      if other = name then some e else (directory rest).child? other := by
  rw [child?, child?, List.find?_cons]
  by_cases h : other = name
  · simp [h]
  · simp [h, beq_eq_false_iff_ne.mpr (Ne.symm h)]

theorem child?_putName (name : String) (new : Entry) (entries : List (String × Entry))
    (other : String) :
    (directory (putName name new entries)).child? other =
      if other = name then some new else (directory entries).child? other := by
  induction entries with
  | nil => exact child?_cons name new [] other
  | cons x rest ih =>
    obtain ⟨n, e⟩ := x
    rw [putName]
    by_cases hn : n = name
    · subst hn
      rw [if_pos rfl, child?_cons, child?_cons]
      split <;> rfl
    · rw [if_neg hn, child?_cons, child?_cons, ih]
      by_cases ho : other = n
      · subst ho
        rw [if_pos rfl, if_neg hn, if_pos rfl]
      · rw [if_neg ho, if_neg ho]

/-! ## Putting an entry -/

/-- The directory in which names end is there. -/
def HasRoom (e : Entry) (names : List String) : Prop :=
  ∀ front name, names = front ++ [name] → ∃ entries, e.at? front = some (.directory entries)

theorem HasRoom.exists_directory {e : Entry} {name : String} {names : List String}
    (h : e.HasRoom (name :: names)) :
    ∃ entries, e = .directory entries ∧
      (names = [] ∨ ∃ below, e.child? name = some below ∧ below.HasRoom names) := by
  rcases List.eq_nil_or_concat names with rfl | ⟨front, last, rfl⟩
  · obtain ⟨entries, hentries⟩ := h [] name rfl
    exact ⟨entries, Option.some.inj hentries, .inl rfl⟩
  · rw [List.concat_eq_append] at h ⊢
    obtain ⟨entries, hentries⟩ := h (name :: front) last rfl
    obtain ⟨own, below, rfl, hbelow, hfront⟩ := exists_directory_of_at?_cons hentries
    refine ⟨own, rfl, .inr ⟨below, hbelow, ?_⟩⟩
    intro front' last' heq
    obtain ⟨rfl, -⟩ := List.append_inj' heq rfl
    exact ⟨entries, hfront⟩

theorem put_cons (new : Entry) (entries : List (String × Entry)) (name : String)
    (names : List String) :
    put new (.directory entries) (name :: names) =
      match (directory entries).child? name with
      | some below => .directory (putName name (put new below names) entries)
      | none => if names.isEmpty then .directory (putName name new entries) else
          .directory entries := by
  rw [put, child?]
  cases entries.find? fun e => e.1 == name <;> rfl

/-- The entry that was put, and what lies in it. -/
theorem at?_put_append {e : Entry} {names : List String} (h : e.HasRoom names) (new : Entry)
    (more : List String) : (put new e names).at? (names ++ more) = new.at? more := by
  induction names generalizing e with
  | nil => rw [put.eq_def]; rfl
  | cons name names ih =>
    obtain ⟨entries, rfl, hbelow⟩ := h.exists_directory
    rw [put_cons, List.cons_append, at?]
    rcases hbelow with rfl | ⟨below, hbelow, hroom⟩
    · cases (directory entries).child? name with
      | none => simp [child?_putName]
      | some below => simp [child?_putName, put]
    · simp only [hbelow]
      rw [child?_putName, if_pos rfl, Option.bind_some]
      exact ih hroom

/-- What lies apart from it. -/
theorem at?_put_of_apart {e : Entry} {names other : List String} (h : e.HasRoom names)
    (new : Entry) (hbelow : ¬ names <+: other) (habove : ¬ other <+: names) :
    (put new e names).at? other = e.at? other := by
  induction names generalizing e other with
  | nil => exact absurd (List.nil_prefix) hbelow
  | cons name names ih =>
    cases other with
    | nil => exact absurd (List.nil_prefix) habove
    | cons name' other =>
      obtain ⟨entries, rfl, hroom⟩ := h.exists_directory
      rw [put_cons, at?, at?]
      by_cases hname : name' = name
      · -- The same name: the two part further down.
        subst hname
        rw [List.cons_prefix_cons] at hbelow habove
        rcases hroom with rfl | ⟨below, hchild, hroom⟩
        · exact absurd ⟨rfl, List.nil_prefix⟩ hbelow
        · simp only [hchild]
          rw [child?_putName, if_pos rfl, Option.bind_some]
          exact ih hroom (fun h => hbelow ⟨rfl, h⟩) fun h => habove ⟨rfl, h⟩
      · cases (directory entries).child? name with
        | some below =>
          simp only
          rw [child?_putName, if_neg hname]
        | none =>
          simp only
          split
          · rw [child?_putName, if_neg hname]
          · rfl

/-- The directories that it lies in. -/
theorem at?_put_above {e : Entry} {names : List String} (h : e.HasRoom names) (new : Entry)
    {above more : List String} (hmore : more ≠ []) (hnames : names = above ++ more) :
    (∃ entries, e.at? above = some (.directory entries)) ∧
      ∃ entries, (put new e names).at? above = some (.directory entries) := by
  subst hnames
  induction above generalizing e with
  | nil =>
    cases more with
    | nil => exact absurd rfl hmore
    | cons name more =>
      obtain ⟨entries, rfl, -⟩ := h.exists_directory
      refine ⟨⟨entries, rfl⟩, ?_⟩
      rw [List.nil_append, put_cons]
      split
      · exact ⟨_, rfl⟩
      · split
        · exact ⟨_, rfl⟩
        · exact ⟨_, rfl⟩
  | cons name above ih =>
    obtain ⟨entries, rfl, hroom⟩ := h.exists_directory
    rcases hroom with hnil | ⟨below, hchild, hroom⟩
    · exact absurd (List.append_eq_nil_iff.mp hnil).2 hmore
    · obtain ⟨hold, hnew⟩ := ih hroom
      rw [List.cons_append, put_cons]
      simp only [hchild, at?]
      rw [child?_putName, if_pos rfl, Option.bind_some, Option.bind_some]
      exact ⟨hold, hnew⟩

/-! ## Growth -/

/-- Entries of one sort: two files, two devices, two directories, or the same link. -/
def Alike : Entry → Entry → Prop
  | .file _, .file _ => True
  | .device, .device => True
  | .link target, .link target' => target = target'
  | .directory _, .directory _ => True
  | _, _ => False

theorem Alike.refl (e : Entry) : e.Alike e := by
  cases e <;> simp [Alike]

theorem Alike.trans {a b c : Entry} (hab : a.Alike b) (hbc : b.Alike c) : a.Alike c := by
  cases a <;> cases b <;> cases c <;> simp_all [Alike]

/-- What can be new: a file or a directory, but no link and no device. -/
def IsPlain : Entry → Prop
  | .file _ => True
  | .directory _ => True
  | _ => False

/-- Everything is still there as what it was, only files and directories are new, and files keep
    their texts but where they were written. -/
structure Grows (written : List String → Prop) (old new : Entry) : Prop where
  kept : ∀ {names e}, old.at? names = some e → ∃ e', new.at? names = some e' ∧ e.Alike e'
  plain : ∀ {names e}, new.at? names = some e → e.IsPlain ∨ old.at? names = some e
  texts : ∀ {names} text, ¬ written names →
    (new.at? names = some (.file text) ↔ old.at? names = some (.file text))

theorem Grows.refl (written : List String → Prop) (e : Entry) : Grows written e e where
  kept h := ⟨_, h, .refl _⟩
  plain h := .inr h
  texts _ _ := Iff.rfl

theorem Grows.trans {written written' : List String → Prop} {a b c : Entry}
    (hab : Grows written a b) (hbc : Grows written' b c) :
    Grows (fun names => written names ∨ written' names) a c where
  kept h := by
    obtain ⟨e', he', halike⟩ := hab.kept h
    obtain ⟨e'', he'', halike'⟩ := hbc.kept he'
    exact ⟨e'', he'', halike.trans halike'⟩
  plain h := by
    rcases hbc.plain h with hplain | hb
    · exact .inl hplain
    · exact hab.plain hb
  texts text h := by
    rw [hbc.texts text fun hw => h (.inr hw), hab.texts text fun hw => h (.inl hw)]

theorem Grows.mono {written written' : List String → Prop} {old new : Entry}
    (h : Grows written old new) (hw : ∀ names, written names → written' names) :
    Grows written' old new where
  kept := h.kept
  plain := h.plain
  texts text hnot := h.texts text fun hwritten => hnot (hw _ hwritten)

theorem Grows.link_iff {written : List String → Prop} {old new : Entry}
    (h : Grows written old new) {names : List String} {target : String} :
    new.at? names = some (.link target) ↔ old.at? names = some (.link target) := by
  constructor
  · intro hnew
    rcases h.plain hnew with hplain | hold
    · exact hplain.elim
    · exact hold
  · intro hold
    obtain ⟨e, he, halike⟩ := h.kept hold
    cases e with
    | link target' =>
      rw [he, show target = target' from halike]
    | _ => exact halike.elim

/-- What is put: a file, or a directory with nothing in it. -/
def IsFresh (new : Entry) : Prop :=
  (∃ text, new = .file text) ∨ new = .directory []

theorem IsFresh.at?_eq_none {new : Entry} (h : new.IsFresh) (name : String)
    (names : List String) : new.at? (name :: names) = none := by
  rcases h with ⟨text, rfl⟩ | rfl <;> rfl

theorem IsFresh.isPlain {new : Entry} (h : new.IsFresh) : new.IsPlain := by
  rcases h with ⟨text, rfl⟩ | rfl <;> trivial

theorem at?_put_self {e : Entry} {names : List String} (hroom : e.HasRoom names) (new : Entry) :
    (put new e names).at? names = some new := by
  have h := at?_put_append hroom new []
  rwa [List.append_nil] at h

/-- Everywhere else all is as it was, but for the entries of directories. -/
theorem at?_put_of_ne {e new : Entry} {names other : List String} (hroom : e.HasRoom names)
    (hnew : new.IsFresh) (hplace : ∀ name more, e.at? (names ++ name :: more) = none)
    (hne : other ≠ names) :
    (put new e names).at? other = e.at? other ∨
      (∃ entries, e.at? other = some (.directory entries)) ∧
        ∃ entries, (put new e names).at? other = some (.directory entries) := by
  by_cases hbelow : names <+: other
  · obtain ⟨more, rfl⟩ := hbelow
    cases more with
    | nil => exact absurd (List.append_nil names) hne
    | cons name more =>
      rw [hplace, at?_put_append hroom, hnew.at?_eq_none]
      exact .inl rfl
  · by_cases habove : other <+: names
    · obtain ⟨more, rfl⟩ := habove
      have hmore : more ≠ [] := by
        rintro rfl
        exact hne (List.append_nil other).symm
      exact .inr (at?_put_above hroom new hmore rfl)
    · exact .inl (at?_put_of_apart hroom new hbelow habove)

/-- One step of growth: an entry where there was none, or a file in the place of a file. -/
theorem grows_put {e new : Entry} {names : List String} (hroom : e.HasRoom names)
    (hnew : new.IsFresh)
    (hplace : e.at? names = none ∨
      (∃ text, e.at? names = some (.file text)) ∧ ∃ text, new = .file text) :
    Grows (· = names) e (put new e names) := by
  have hnone : ∀ name more, e.at? (names ++ name :: more) = none := by
    intro name more
    rw [at?_append]
    rcases hplace with hplace | ⟨⟨text, hplace⟩, -⟩ <;> rw [hplace] <;> rfl
  refine ⟨?_, ?_, ?_⟩
  · intro other found hfound
    by_cases hne : other = names
    · subst hne
      rcases hplace with hplace | ⟨⟨text, hplace⟩, text', rfl⟩
      · rw [hplace] at hfound
        simp at hfound
      · obtain rfl := Option.some.inj (hplace.symm.trans hfound)
        exact ⟨_, at?_put_self hroom _, trivial⟩
    · rcases at?_put_of_ne hroom hnew hnone hne with hsame | ⟨⟨entries, hold⟩, entries', hput⟩
      · exact ⟨found, hsame.trans hfound, .refl _⟩
      · obtain rfl := Option.some.inj (hold.symm.trans hfound)
        exact ⟨_, hput, trivial⟩
  · intro other found hfound
    by_cases hne : other = names
    · subst hne
      rw [at?_put_self hroom] at hfound
      exact .inl (Option.some.inj hfound ▸ hnew.isPlain)
    · rcases at?_put_of_ne hroom hnew hnone hne with hsame | ⟨-, entries, hput⟩
      · exact .inr (hsame ▸ hfound)
      · obtain rfl := Option.some.inj (hput.symm.trans hfound)
        exact .inl trivial
  · intro other text hne
    rcases at?_put_of_ne hroom hnew hnone hne with hsame | ⟨⟨entries, hold⟩, entries', hput⟩
    · rw [hsame]
    · simp [hold, hput]

theorem hasRoom_of_at? {e found : Entry} {names : List String} (h : e.at? names = some found) :
    e.HasRoom names := by
  rintro front name rfl
  rw [at?_concat] at h
  obtain ⟨above, habove, hchild⟩ := Option.bind_eq_some_iff.mp h
  cases above with
  | directory entries => exact ⟨entries, habove⟩
  | _ => simp [child?] at hchild

theorem hasRoom_concat {e : Entry} {names : List String} {entries : List (String × Entry)}
    (h : e.at? names = some (.directory entries)) (name : String) :
    e.HasRoom (names ++ [name]) := by
  intro front last heq
  obtain ⟨rfl, -⟩ := List.append_inj' heq rfl
  exact ⟨entries, h⟩

/-- A directory where there was nothing writes no file. -/
theorem grows_put_directory {e : Entry} {names : List String} (hroom : e.HasRoom names)
    (hplace : e.at? names = none) :
    Grows (fun _ => False) e (put (.directory []) e names) := by
  have hgrows := grows_put hroom (.inr rfl) (.inl hplace)
  refine ⟨hgrows.kept, hgrows.plain, ?_⟩
  intro other text _
  by_cases hother : other = names
  · subst hother
    simp [at?_put_self hroom, hplace]
  · exact hgrows.texts text hother

end Entry

end DefineFold
