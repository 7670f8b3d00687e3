/-
  DefineFold.Proofs.Files.Follow

  Where paths lead. A way along pieces takes them one after the other, and a step may put others in
  the place of a piece, as a link does (`Way`). The ways that can be gone are those of a walker who
  counts links but knows no bound on the number of pieces: the bound is never reached
  (`follow_of_walks`), and growth keeps them (`walks_of_follow`). Whether the last name of a path is
  followed or kept makes a difference only if it is a link (`locate_keep`).

  A path may lead to a place where nothing is yet. `Leads` says where a path leads once the missing
  names on it have been made; that depends on nothing but the links (`Leads.of_grows`), so that it
  holds before the names are made as well.
-/

import DefineFold.Proofs.Files.Growth

namespace DefineFold

namespace FileSystem

/-! ## Ways -/

section

variable {σ : Type}

/-- The ways along pieces: each step takes a piece, and may put others in its place. -/
inductive Way (step : σ → String → σ → List String → Prop) : σ → List String → σ → Prop where
  | done (s : σ) : Way step s [] s
  | step {s next goal : σ} {piece : String} {front rest : List String} :
    step s piece next front → Way step next (front ++ rest) goal →
      Way step s (piece :: rest) goal

variable {step step' : σ → String → σ → List String → Prop} {s goal : σ} {pieces more : List String}

/-- A way along pieces is one along the first of them and one along the others. -/
theorem way_append_iff :
    Way step s (pieces ++ more) goal ↔
      ∃ between, Way step s pieces between ∧ Way step between more goal := by
  constructor
  · intro h
    generalize hall : pieces ++ more = all at h
    -- Where no piece is left before the cut, the whole way lies behind it.
    induction h generalizing pieces with
    | done s =>
      obtain ⟨rfl, rfl⟩ := List.append_eq_nil_iff.mp hall
      exact ⟨s, .done s, .done s⟩
    | step hstep hrest ih =>
      cases pieces with
      | nil =>
        obtain rfl : more = _ := hall
        exact ⟨_, .done _, .step hstep hrest⟩
      | cons first pieces =>
        obtain ⟨rfl, rfl⟩ := List.cons.inj hall
        obtain ⟨between, hfirst, hmore⟩ := ih (List.append_assoc _ _ _)
        exact ⟨between, .step hstep hfirst, hmore⟩
  · rintro ⟨between, hfirst, hmore⟩
    induction hfirst with
    | done => exact hmore
    | step hstep _ ih =>
      have hrest := ih hmore
      rw [List.append_assoc] at hrest
      exact .step hstep hrest

/-- If steps leave no choice, ways do not either. -/
theorem Way.unique
    (hstep : ∀ {s piece next next' front front'}, step s piece next front →
      step s piece next' front' → next = next' ∧ front = front')
    {goal' : σ} (h : Way step s pieces goal) (h' : Way step s pieces goal') : goal = goal' := by
  induction h with
  | done s =>
    cases h'
    rfl
  | step hfirst _ ih =>
    cases h' with
    | step hfirst' hrest' =>
      obtain ⟨rfl, rfl⟩ := hstep hfirst hfirst'
      exact ih hrest'

theorem Way.mono
    (hstep : ∀ {s piece next front}, step s piece next front → step' s piece next front)
    (h : Way step s pieces goal) : Way step' s pieces goal := by
  induction h with
  | done s => exact .done s
  | step hfirst _ ih => exact .step (hstep hfirst) ih

end

/-! ## Ways from the root -/

/-- The entries on a way are what its names stand for. -/
def Trail.IsValid (root : Entry) : Trail → Prop
  | [] => True
  | (name, e) :: trail => (Trail.here root trail).child? name = some e ∧ Trail.IsValid root trail

theorem Trail.names_cons (name : String) (e : Entry) (trail : Trail) :
    Trail.names ((name, e) :: trail) = trail.names ++ [name] := by
  simp [Trail.names]

theorem Trail.names_tail (trail : Trail) : Trail.names trail.tail = trail.names.dropLast := by
  cases trail with
  | nil => rfl
  | cons x trail =>
    obtain ⟨name, e⟩ := x
    rw [Trail.names_cons, List.dropLast_concat]
    rfl

theorem Trail.IsValid.tail {root : Entry} {trail : Trail} (h : trail.IsValid root) :
    Trail.IsValid root trail.tail := by
  cases trail with
  | nil => trivial
  | cons x trail => exact h.2

/-- The names of a way lead to its end. -/
theorem Trail.IsValid.at?_names {root : Entry} {trail : Trail} (h : trail.IsValid root) :
    root.at? trail.names = some (trail.here root) := by
  induction trail with
  | nil => rfl
  | cons x trail ih =>
    obtain ⟨name, e⟩ := x
    rw [Trail.names_cons, Entry.at?_concat, ih h.2, Option.bind_some, h.1]
    rfl

theorem Trail.IsValid.at?_concat {root : Entry} {trail : Trail} (h : trail.IsValid root)
    (name : String) : root.at? (trail.names ++ [name]) = (trail.here root).child? name := by
  rw [Entry.at?_concat, h.at?_names, Option.bind_some]

theorem Trail.isValid_of_extend? {root : Entry} {trail longer : Trail} {names : List String}
    (h : Trail.extend? root trail names = some longer) (hvalid : trail.IsValid root) :
    longer.IsValid root ∧ longer.names = trail.names ++ names := by
  induction names generalizing trail with
  | nil =>
    obtain rfl := Option.some.inj h
    exact ⟨hvalid, (List.append_nil _).symm⟩
  | cons name names ih =>
    rw [Trail.extend?] at h
    split at h
    · rename_i e hchild
      obtain ⟨hlonger, hnames⟩ := ih h ⟨hchild, hvalid⟩
      refine ⟨hlonger, ?_⟩
      rw [hnames, Trail.names_cons, List.append_assoc]
      rfl
    · simp at h

theorem Trail.exists_extend? {root : Entry} {trail : Trail} (hvalid : trail.IsValid root)
    {names : List String} {e : Entry} (h : root.at? (trail.names ++ names) = some e) :
    ∃ longer, Trail.extend? root trail names = some longer := by
  induction names generalizing trail with
  | nil => exact ⟨trail, rfl⟩
  | cons name names ih =>
    rw [Entry.at?_append, hvalid.at?_names, Option.bind_some] at h
    obtain ⟨entries, below, -, hbelow, -⟩ := Entry.exists_directory_of_at?_cons h
    have hlonger : root.at? (Trail.names ((name, below) :: trail) ++ names) = some e := by
      rw [Trail.names_cons, List.append_assoc, Entry.at?_append, hvalid.at?_names]
      exact h
    have hvalid' : Trail.IsValid root ((name, below) :: trail) := ⟨hbelow, hvalid⟩
    obtain ⟨longer, hextend⟩ := ih hvalid' hlonger
    exact ⟨longer, by rw [Trail.extend?, hbelow]; exact hextend⟩

/-- Where a link leads on from: the root for an absolute target, else the place of the link. -/
def linkStart {α : Type} (target : String) (place : List α) : List α :=
  if FilePath.isAbsolute target then [] else place

/-! ## Steps -/

/-- A piece that stands for a name in a directory. -/
def IsName (piece : String) : Prop :=
  piece ≠ "" ∧ piece ≠ "." ∧ piece ≠ ".." ∧ textLength piece ≤ nameLimit

instance (piece : String) : Decidable (IsName piece) :=
  inferInstanceAs (Decidable (_ ∧ _))

/-- How far a walker has come, and how many links may still be followed. -/
structure Stage where
  links : Nat
  trail : Trail

/-- The steps that can be gone. -/
inductive WalkStep (root : Entry) : Stage → String → Stage → List String → Prop where
  | stay {s : Stage} {piece : String} {entries : List (String × Entry)} :
    s.trail.here root = .directory entries → piece = "" ∨ piece = "." →
      WalkStep root s piece s []
  | up {s : Stage} {entries : List (String × Entry)} :
    s.trail.here root = .directory entries → WalkStep root s ".." ⟨s.links, s.trail.tail⟩ []
  | link {links : Nat} {trail : Trail} {piece target : String} :
    IsName piece → (trail.here root).child? piece = some (.link target) → target ≠ "" →
      WalkStep root ⟨links + 1, trail⟩ piece ⟨links, linkStart target trail⟩
        (FilePath.pieces target)
  | down {s : Stage} {piece : String} {e : Entry} :
    IsName piece → (s.trail.here root).child? piece = some e → (∀ target, e ≠ .link target) →
      WalkStep root s piece ⟨s.links, (piece, e) :: s.trail⟩ []

/-- The ways that can be gone. -/
def Walks (root : Entry) : Stage → List String → Stage → Prop :=
  Way (WalkStep root)

/-- Everything that a step of following a path can do when it succeeds. -/
theorem follow_cons_cases {root : Entry} {last : LastName} {fuel links : Nat} {trail : Trail}
    {piece : String} {rest : List String} {place : Place}
    (h : follow root last (fuel + 1) links trail (piece :: rest) = .ok place) :
    ∃ entries, trail.here root = .directory entries ∧
      ((piece = "" ∨ piece = ".") ∧ follow root last fuel links trail rest = .ok place ∨
        piece = ".." ∧ follow root last fuel links trail.tail rest = .ok place ∨
        IsName piece ∧ (last = .create → rest.all (· = "") = true → rest = []) ∧
          ((trail.here root).child? piece = none ∧ rest.all (· = "") = true ∧
              place = .free trail.names piece ∨
            (∃ target, (trail.here root).child? piece = some (.link target) ∧
              (last = .keep ∧ place = .found (trail.names ++ [piece]) ∨
                target ≠ "" ∧ ∃ fewer, links = fewer + 1 ∧
                  follow root last fuel fewer (linkStart target trail)
                    (FilePath.pieces target ++ rest) = .ok place)) ∨
            ∃ e, (trail.here root).child? piece = some e ∧ (∀ target, e ≠ .link target) ∧
              follow root last fuel links ((piece, e) :: trail) rest = .ok place)) := by
  rw [follow.eq_def] at h
  simp only at h
  split at h
  · rename_i entries hhere
    refine ⟨entries, hhere, ?_⟩
    split at h
    · rename_i hstay
      exact .inl ⟨hstay, h⟩
    · rename_i hstay
      split at h
      · rename_i hup
        exact .inr (.inl ⟨hup, h⟩)
      · rename_i hup
        split at h
        · simp at h
        · rename_i hcreate
          split at h
          · simp at h
          · rename_i hlimit
            have hname : IsName piece := by
              rw [not_or] at hstay
              exact ⟨hstay.1, hstay.2, hup, Nat.le_of_not_lt hlimit⟩
            have hrest : last = .create → rest.all (· = "") = true → rest = [] := by
              intro hlast hall
              cases rest with
              | nil => rfl
              | cons next rest => exact absurd ⟨hlast, rfl, hall⟩ hcreate
            refine .inr (.inr ⟨hname, hrest, ?_⟩)
            simp only [hhere, Entry.child?]
            split at h
            · rename_i hnone
              split at h
              · rename_i hall
                exact .inl ⟨by rw [hnone]; rfl, hall, by simpa using h.symm⟩
              · simp at h
            · rename_i target hlink
              refine .inr (.inl ⟨target, by rw [hlink]; rfl, ?_⟩)
              split at h
              · rename_i hkeep
                exact .inl ⟨hkeep.2, by simpa using h.symm⟩
              · split at h
                · simp at h
                · rename_i htarget
                  split at h
                  · simp at h
                  · rename_i fewer
                    exact .inr ⟨htarget, fewer, rfl, h⟩
            · rename_i e hnotlink hfound
              exact .inr (.inr ⟨e, by rw [hfound]; rfl, hnotlink, h⟩)
  · simp at h

/-! ## Walks -/

theorem isValid_linkStart {root : Entry} {trail : Trail} (h : trail.IsValid root)
    (target : String) : Trail.IsValid root (linkStart target trail) := by
  rw [linkStart]
  split
  · trivial
  · exact h

theorem WalkStep.isValid {root : Entry} {s next : Stage} {piece : String} {front : List String}
    (h : WalkStep root s piece next front) (hvalid : s.trail.IsValid root) :
    next.trail.IsValid root := by
  cases h with
  | stay _ _ => exact hvalid
  | up _ => exact hvalid.tail
  | link _ _ _ => exact isValid_linkStart hvalid _
  | down _ hchild _ => exact ⟨hchild, hvalid⟩

theorem Walks.isValid {root : Entry} {s goal : Stage} {pieces : List String}
    (h : Walks root s pieces goal) (hvalid : s.trail.IsValid root) : goal.trail.IsValid root := by
  induction h with
  | done => exact hvalid
  | step hstep _ ih => exact ih (hstep.isValid hvalid)

/-- Names that are there can be gone along. -/
theorem exists_walks_names {root : Entry} {trail : Trail} (hvalid : trail.IsValid root)
    (links : Nat) {names : List String} (hnames : ∀ name ∈ names, IsName name) {e : Entry}
    (hnotlink : ∀ target, e ≠ .link target) (h : root.at? (trail.names ++ names) = some e) :
    ∃ trail', Walks root ⟨links, trail⟩ names ⟨links, trail'⟩ ∧
      trail'.names = trail.names ++ names := by
  induction names generalizing trail with
  | nil => exact ⟨trail, .done _, (List.append_nil _).symm⟩
  | cons name names ih =>
    have hbelow := h
    rw [Entry.at?_append, hvalid.at?_names, Option.bind_some] at hbelow
    obtain ⟨entries, below, hhere, hchild, hrest⟩ := Entry.exists_directory_of_at?_cons hbelow
    -- What lies below a name is no link, since there is something in it or it is the end.
    have hbelowlink : ∀ target, below ≠ .link target := by
      rintro target rfl
      cases names with
      | nil => exact hnotlink target (Option.some.inj hrest).symm
      | cons next names => simp [Entry.at?, Entry.child?] at hrest
    have hlonger : root.at? (Trail.names ((name, below) :: trail) ++ names) = some e := by
      rw [Trail.names_cons, List.append_assoc]
      exact h
    have hvalid' : Trail.IsValid root ((name, below) :: trail) := ⟨hchild, hvalid⟩
    obtain ⟨trail', hwalks, htrail'⟩ :=
      ih hvalid' (fun n hn => hnames n (List.mem_cons_of_mem _ hn)) hlonger
    have hstep : WalkStep root ⟨links, trail⟩ name ⟨links, (name, below) :: trail⟩ [] :=
      .down (hnames name List.mem_cons_self) hchild hbelowlink
    refine ⟨trail', .step hstep hwalks, ?_⟩
    rw [htrail', Trail.names_cons, List.append_assoc]
    rfl

/-! ## Enough steps -/

mutual

/-- The targets of all links are counted. -/
theorem length_pieces_le_linkPieces {target : String} :
    (root : Entry) → (names : List String) → root.at? names = some (.link target) →
      (FilePath.pieces target).length ≤ linkPieces root
  | .link _, [], h => by
    obtain rfl := Entry.link.inj (Option.some.inj h)
    exact Nat.le_refl _
  | .directory entries, name :: names, h => by
    obtain ⟨_, below, heq, hchild, hbelow⟩ := Entry.exists_directory_of_at?_cons h
    exact length_pieces_le_linkPiecesOf entries name names below hchild hbelow
  | .file _, [], h => by simp [Entry.at?] at h
  | .device, [], h => by simp [Entry.at?] at h
  | .directory _, [], h => by simp [Entry.at?] at h
  | .file _, _ :: _, h => by simp [Entry.at?, Entry.child?] at h
  | .device, _ :: _, h => by simp [Entry.at?, Entry.child?] at h
  | .link _, _ :: _, h => by simp [Entry.at?, Entry.child?] at h

/-- The same for the entries of a directory. -/
theorem length_pieces_le_linkPiecesOf {target : String} :
    (entries : List (String × Entry)) → (name : String) → (names : List String) →
      (below : Entry) → (Entry.directory entries).child? name = some below →
        below.at? names = some (.link target) →
          (FilePath.pieces target).length ≤ linkPiecesOf entries
  | [], _, _, _, h, _ => by simp [Entry.child?] at h
  | (n, e) :: rest, name, names, below, hchild, hbelow => by
    rw [linkPiecesOf]
    by_cases hn : n = name
    · have heq : e = below := by simpa [Entry.child?, hn] using hchild
      have := length_pieces_le_linkPieces e names (heq ▸ hbelow)
      omega
    · have hrest : (Entry.directory rest).child? name = some below := by
        simpa [Entry.child?, hn] using hchild
      have := length_pieces_le_linkPiecesOf rest name names below hrest hbelow
      omega

end

theorem exists_find?_of_child? {e found : Entry} {name : String}
    (h : e.child? name = some found) :
    ∃ entries n, e = .directory entries ∧ entries.find? (fun x => x.1 == name) =
      some (n, found) := by
  cases e with
  | directory entries =>
    obtain ⟨⟨n, _⟩, hfind, rfl⟩ := Option.map_eq_some_iff.mp h
    exact ⟨entries, n, rfl, hfind⟩
  | _ => simp [Entry.child?] at h

theorem follow_link {root : Entry} {fuel links : Nat} {trail : Trail} {piece target : String}
    {rest : List String} (hname : IsName piece)
    (hchild : (trail.here root).child? piece = some (.link target)) (htarget : target ≠ "") :
    follow root .follow (fuel + 1) (links + 1) trail (piece :: rest) =
      follow root .follow fuel links (linkStart target trail)
        (FilePath.pieces target ++ rest) := by
  obtain ⟨hempty, hdot, hup, hlimit⟩ := hname
  obtain ⟨entries, n, hhere, hfind⟩ := exists_find?_of_child? hchild
  rw [follow.eq_def]
  simp only [hhere, hempty, hdot, hup, htarget, hfind, Nat.not_lt.mpr hlimit, or_self, if_false,
    reduceCtorEq, false_and, and_false]
  rfl

theorem follow_down {root : Entry} {fuel links : Nat} {trail : Trail} {piece : String}
    {e : Entry} {rest : List String} (hname : IsName piece)
    (hchild : (trail.here root).child? piece = some e) (hnotlink : ∀ target, e ≠ .link target) :
    follow root .follow (fuel + 1) links trail (piece :: rest) =
      follow root .follow fuel links ((piece, e) :: trail) rest := by
  obtain ⟨hempty, hdot, hup, hlimit⟩ := hname
  obtain ⟨entries, n, hhere, hfind⟩ := exists_find?_of_child? hchild
  rw [follow.eq_def]
  simp only [hhere, hempty, hdot, hup, hfind, Nat.not_lt.mpr hlimit, or_self, if_false,
    reduceCtorEq, false_and]

/-- A way that can be gone is gone, if there are steps for every piece and for those of as many
    links as may be followed. -/
theorem follow_of_walks {root : Entry} {s goal : Stage} {pieces : List String}
    (h : Walks root s pieces goal) (hvalid : s.trail.IsValid root) {fuel : Nat}
    (hfuel : pieces.length + 1 + s.links * linkPieces root ≤ fuel) :
    follow root .follow fuel s.links s.trail pieces = .ok (.found goal.trail.names) := by
  induction h generalizing fuel with
  | done s =>
    cases fuel with
    | zero => simp at hfuel
    | succ fuel => rfl
  | step hstep _ ih =>
    have hvalid' := hstep.isValid hvalid
    cases fuel with
    | zero => simp at hfuel
    | succ fuel =>
      rw [List.length_cons] at hfuel
      cases hstep with
      | stay hhere hpiece =>
        rw [follow.eq_def]
        simp only [hhere, hpiece, if_true]
        exact ih hvalid' (by simp only [List.nil_append]; omega)
      | up hhere =>
        rw [follow.eq_def]
        simp only [hhere]
        exact ih hvalid' (by simp only [List.nil_append]; omega)
      | link hname hchild htarget =>
        rw [Nat.add_mul, Nat.one_mul] at hfuel
        rw [follow_link hname hchild htarget]
        have htargets := length_pieces_le_linkPieces root _ ((hvalid.at?_concat _).trans hchild)
        exact ih hvalid' (by simp only [List.length_append]; omega)
      | down hname hchild hnotlink =>
        rw [follow_down hname hchild hnotlink]
        exact ih hvalid' (by simp only [List.nil_append]; omega)

/-! ## Last names -/

/-- A last name that is kept is a link, or else the path leads to where it leads when followed. -/
theorem follow_keep {root : Entry} (fuel links : Nat) {trail : Trail} (hvalid : trail.IsValid root)
    (pieces : List String) :
    follow root .keep fuel links trail pieces = follow root .follow fuel links trail pieces ∨
      ∃ names target, follow root .keep fuel links trail pieces = .ok (.found names) ∧
        root.at? names = some (.link target) := by
  induction fuel generalizing links trail pieces with
  | zero => exact .inl rfl
  | succ fuel ih =>
    cases pieces with
    | nil => exact .inl rfl
    | cons piece rest =>
      rw [follow.eq_def root .keep, follow.eq_def root .follow]
      simp only [reduceCtorEq, false_and, and_false, and_true, if_false]
      cases hhere : trail.here root with
      | directory entries =>
        simp only
        split
        · exact ih links hvalid rest
        · split
          · exact ih links hvalid.tail rest
          · split
            · exact .inl rfl
            · -- Only here does it matter what is done with the last name.
              cases hfind : entries.find? fun e => e.1 == piece with
              | none => exact .inl rfl
              | some found =>
                obtain ⟨n, e⟩ := found
                have hchild : (trail.here root).child? piece = some e := by
                  rw [hhere, Entry.child?, hfind]
                  rfl
                cases e with
                | link target =>
                  simp only
                  by_cases hlast : rest.isEmpty = true
                  · rw [if_pos hlast]
                    exact .inr ⟨_, target, rfl, (hvalid.at?_concat piece).trans hchild⟩
                  · rw [if_neg hlast]
                    split
                    · exact .inl rfl
                    · cases links with
                      | zero => exact .inl rfl
                      | succ links => exact ih links (isValid_linkStart hvalid target) _
                | _ =>
                  have hvalid' : Trail.IsValid root ((piece, _) :: trail) := ⟨hchild, hvalid⟩
                  exact ih links hvalid' rest
      | _ => exact .inl rfl

/-! ## Walks under growth -/

/-- The names under which lies what a path leads to, or will lie. -/
def Place.goal : Place → List String
  | .found names => names
  | .free directory name => directory ++ [name]

theorem names_linkStart (target : String) (trail : Trail) :
    Trail.names (linkStart target trail) = linkStart target trail.names := by
  rw [linkStart, linkStart]
  split <;> rfl

section

variable {written : List String → Prop} {old new : Entry} (hgrows : Entry.Grows written old new)
  {trail trail' : Trail} (hold : trail.IsValid old) (hnew : trail'.IsValid new)
  (hnames : trail'.names = trail.names)

include hgrows hold hnew hnames

theorem exists_directory_of_grows {entries : List (String × Entry)}
    (h : trail.here old = .directory entries) :
    ∃ entries', trail'.here new = .directory entries' := by
  obtain ⟨e, he, halike⟩ := hgrows.kept (hold.at?_names.trans (congrArg some h))
  rw [← hnames, hnew.at?_names] at he
  obtain rfl := Option.some.inj he
  cases hhere : trail'.here new with
  | directory entries' => exact ⟨entries', rfl⟩
  | _ => simp [hhere, Entry.Alike] at halike

theorem child?_link_of_grows {piece target : String}
    (h : (trail.here old).child? piece = some (.link target)) :
    (trail'.here new).child? piece = some (.link target) := by
  rw [← hold.at?_concat, ← hgrows.link_iff, ← hnames, hnew.at?_concat] at h
  exact h

theorem exists_child?_of_grows {piece : String} {e : Entry}
    (h : (trail.here old).child? piece = some e) (hnotlink : ∀ target, e ≠ .link target) :
    ∃ e', (trail'.here new).child? piece = some e' ∧ ∀ target, e' ≠ .link target := by
  rw [← hold.at?_concat] at h
  obtain ⟨e', he', halike⟩ := hgrows.kept h
  rw [← hnames, hnew.at?_concat] at he'
  refine ⟨e', he', ?_⟩
  rintro target rfl
  cases e with
  | link target' => exact hnotlink target' rfl
  | _ => exact halike

end

/-- What could be followed can be gone after growth, up to the name that was free if it has been
    taken since. A last name that was kept must be no link. -/
theorem walks_of_follow {written : List String → Prop} {old new : Entry}
    (hgrows : Entry.Grows written old new) {last : LastName} {fuel links : Nat}
    {trail trail' : Trail} {pieces : List String} {place : Place}
    (h : follow old last fuel links trail pieces = .ok place)
    (hkeep : last = .keep → ∀ target, old.at? place.goal ≠ some (.link target))
    (hold : trail.IsValid old)
    (hnew : trail'.IsValid new) (hnames : trail'.names = trail.names)
    (hfree : ∀ directory name, place = .free directory name →
      last = .create ∧ ∃ e, new.at? (directory ++ [name]) = some e) :
    ∃ goal, Walks new ⟨links, trail'⟩ pieces goal ∧ goal.trail.names = place.goal := by
  induction fuel generalizing links trail trail' pieces with
  | zero => simp [follow] at h
  | succ fuel ih =>
    cases pieces with
    | nil =>
      obtain rfl : Place.found trail.names = place := Except.ok.inj h
      exact ⟨⟨links, trail'⟩, .done _, hnames⟩
    | cons piece rest =>
      obtain ⟨entries, hhere, hstep⟩ := follow_cons_cases h
      obtain ⟨entries', hhere'⟩ := exists_directory_of_grows hgrows hold hnew hnames hhere
      rcases hstep with ⟨hstay, hrest⟩ | ⟨rfl, hrest⟩ | ⟨hname, hcreate, hstep⟩
      · obtain ⟨goal, hwalks, hgoal⟩ := ih hrest hold hnew hnames
        have hstep : WalkStep new ⟨links, trail'⟩ piece ⟨links, trail'⟩ [] := .stay hhere' hstay
        exact ⟨goal, .step hstep hwalks, hgoal⟩
      · obtain ⟨goal, hwalks, hgoal⟩ := ih hrest hold.tail hnew.tail
          (by rw [Trail.names_tail, Trail.names_tail, hnames])
        have hstep : WalkStep new ⟨links, trail'⟩ ".." ⟨links, trail'.tail⟩ [] := .up hhere'
        exact ⟨goal, .step hstep hwalks, hgoal⟩
      · rcases hstep with ⟨hnone, hall, rfl⟩ | ⟨target, hchild, hlink⟩ |
          ⟨e, hchild, hnotlink, hrest⟩
        · -- The free name is taken, by no link, and nothing may come behind it.
          obtain ⟨hlast, e, he⟩ := hfree _ _ rfl
          obtain rfl := hcreate hlast hall
          have hnotlink : ∀ target, e ≠ .link target := by
            rintro target rfl
            have hlink := hgrows.link_iff.mp he
            rw [hold.at?_concat, hnone] at hlink
            simp at hlink
          rw [← hnames, hnew.at?_concat] at he
          have hstep : WalkStep new ⟨links, trail'⟩ piece ⟨links, (piece, e) :: trail'⟩ [] :=
            .down hname he hnotlink
          refine ⟨_, .step hstep (.done _), ?_⟩
          rw [Trail.names_cons, hnames]
          rfl
        · rcases hlink with ⟨hlast, rfl⟩ | ⟨htarget, fewer, rfl, hrest⟩
          · exact absurd ((hold.at?_concat piece).trans hchild) (hkeep hlast target)
          · obtain ⟨goal, hwalks, hgoal⟩ := ih hrest (isValid_linkStart hold target)
              (isValid_linkStart hnew target)
              (by rw [names_linkStart, names_linkStart, hnames])
            have hchild' := child?_link_of_grows hgrows hold hnew hnames hchild
            exact ⟨goal, .step (.link hname hchild' htarget) hwalks, hgoal⟩
        · obtain ⟨e', hchild', hnotlink'⟩ :=
            exists_child?_of_grows hgrows hold hnew hnames hchild hnotlink
          have hold' : Trail.IsValid old ((piece, e) :: trail) := ⟨hchild, hold⟩
          have hnew' : Trail.IsValid new ((piece, e') :: trail') := ⟨hchild', hnew⟩
          obtain ⟨goal, hwalks, hgoal⟩ := ih hrest hold' hnew'
            (by rw [Trail.names_cons, Trail.names_cons, hnames])
          have hstep : WalkStep new ⟨links, trail'⟩ piece ⟨links, (piece, e') :: trail'⟩ [] :=
            .down hname hchild' hnotlink'
          exact ⟨goal, .step hstep hwalks, hgoal⟩

/-! ## Paths -/

/-- The names from which a path starts. -/
def startOf (fs : FileSystem) (path : String) : List String :=
  if FilePath.isAbsolute path then [] else fs.workingDirectory

/-- A path that the system takes at all. -/
def Admits (path : String) : Prop :=
  '\x00' ∉ path.toList ∧ path ≠ "" ∧ textLength path ≤ pathLimit

theorem locate_eq_ok {fs : FileSystem} {last : LastName} {path : String} {place : Place}
    (h : fs.locate last path = .ok place) :
    Admits path ∧ ∃ start, Trail.extend? fs.root [] (fs.startOf path) = some start ∧
      ∃ fuel, follow fs.root last fuel linkLimit start (FilePath.pieces path) = .ok place := by
  rw [locate] at h
  split at h
  · simp at h
  · rename_i hnul
    split at h
    · simp at h
    · rename_i hempty
      split at h
      · simp at h
      · rename_i hlimit
        refine ⟨⟨by simpa using hnul, hempty, Nat.le_of_not_lt hlimit⟩, ?_⟩
        cases hstart : Trail.extend? fs.root [] (fs.startOf path) with
        | none =>
          rw [startOf] at hstart
          simp [hstart] at h
        | some start =>
          rw [startOf] at hstart
          simp only [hstart] at h
          exact ⟨start, rfl, _, h⟩

/-- Keeping the last name of a path leads to a link, or to where following it leads. -/
theorem locate_keep (fs : FileSystem) (path : String) :
    fs.locate .keep path = fs.locate .follow path ∨
      ∃ names target, fs.locate .keep path = .ok (.found names) ∧
        fs.root.at? names = some (.link target) := by
  rw [locate, locate]
  split
  · exact .inl rfl
  · split
    · exact .inl rfl
    · split
      · exact .inl rfl
      · simp only
        split
        · rename_i start hstart
          exact follow_keep _ _ (Trail.isValid_of_extend? hstart trivial).1 _
        · exact .inl rfl

theorem locate_of_walks {fs : FileSystem} {path : String} (hpath : Admits path)
    {start : Trail} {goal : Stage}
    (hstart : Trail.extend? fs.root [] (fs.startOf path) = some start)
    (h : Walks fs.root ⟨linkLimit, start⟩ (FilePath.pieces path) goal) :
    fs.locate .follow path = .ok (.found goal.trail.names) := by
  obtain ⟨hnul, hempty, hlimit⟩ := hpath
  have hvalid := (Trail.isValid_of_extend? hstart trivial).1
  rw [locate, if_neg (by simpa using hnul), if_neg hempty, if_neg (Nat.not_lt.mpr hlimit)]
  rw [startOf] at hstart
  simp only [hstart]
  apply follow_of_walks h hvalid
  show (FilePath.pieces path).length + 1 + linkLimit * linkPieces fs.root ≤ _
  have hmul : linkLimit * linkPieces fs.root ≤ (linkLimit + 1) * (linkPieces fs.root + 1) :=
    Nat.mul_le_mul (by omega) (by omega)
  omega

/-- Growth of a file system. -/
structure Grows (written : List String → Prop) (old new : FileSystem) : Prop where
  root : Entry.Grows written old.root new.root
  workingDirectory : new.workingDirectory = old.workingDirectory

theorem Grows.refl (written : List String → Prop) (fs : FileSystem) : Grows written fs fs :=
  ⟨.refl _ _, rfl⟩

theorem Grows.trans {written written' : List String → Prop} {a b c : FileSystem}
    (hab : Grows written a b) (hbc : Grows written' b c) :
    Grows (fun names => written names ∨ written' names) a c :=
  ⟨hab.root.trans hbc.root, hbc.workingDirectory.trans hab.workingDirectory⟩

theorem Grows.mono {written written' : List String → Prop} {old new : FileSystem}
    (h : Grows written old new) (hw : ∀ names, written names → written' names) :
    Grows written' old new :=
  ⟨h.root.mono hw, h.workingDirectory⟩

theorem Grows.startOf {written : List String → Prop} {old new : FileSystem}
    (h : Grows written old new) (path : String) : new.startOf path = old.startOf path := by
  rw [FileSystem.startOf, FileSystem.startOf, h.workingDirectory]

theorem Grows.exists_start {written : List String → Prop} {old new : FileSystem}
    (h : Grows written old new) {path : String} {start : Trail}
    (hstart : Trail.extend? old.root [] (old.startOf path) = some start) :
    ∃ start', Trail.extend? new.root [] (new.startOf path) = some start' ∧
      start'.IsValid new.root ∧ start'.names = start.names := by
  obtain ⟨hvalid, hnames⟩ := Trail.isValid_of_extend? hstart trivial
  obtain ⟨e, he, -⟩ := h.root.kept hvalid.at?_names
  have hat : new.root.at? (Trail.names [] ++ old.startOf path) = some e := by
    rw [← he, hnames]
  have hnil : Trail.IsValid new.root [] := trivial
  obtain ⟨start', hstart'⟩ := Trail.exists_extend? hnil hat
  obtain ⟨hvalid', hnames'⟩ := Trail.isValid_of_extend? hstart' trivial
  exact ⟨start', by rw [h.startOf]; exact hstart', hvalid', hnames'.trans hnames.symm⟩

/-- Where a path led to, it leads to after growth, and a free name that it led to is found if it
    has been taken. -/
theorem exists_walks_of_locate {written : List String → Prop} {old new : FileSystem}
    (hgrows : Grows written old new) {last : LastName} {path : String} {place : Place}
    (h : old.locate last path = .ok place)
    (hkeep : last = .keep → ∀ target, old.root.at? place.goal ≠ some (.link target))
    (hfree : ∀ directory name, place = .free directory name →
      last = .create ∧ ∃ e, new.root.at? (directory ++ [name]) = some e) :
    ∃ start goal, Trail.extend? new.root [] (new.startOf path) = some start ∧
      Walks new.root ⟨linkLimit, start⟩ (FilePath.pieces path) goal ∧
      goal.trail.names = place.goal := by
  obtain ⟨-, start, hstart, fuel, hfollow⟩ := locate_eq_ok h
  obtain ⟨start', hstart', hvalid', hnames'⟩ := hgrows.exists_start hstart
  obtain ⟨goal, hwalks, hgoal⟩ := walks_of_follow hgrows.root hfollow hkeep
    (Trail.isValid_of_extend? hstart trivial).1 hvalid' hnames' hfree
  exact ⟨start', goal, hstart', hwalks, hgoal⟩

theorem locate_of_grows {written : List String → Prop} {old new : FileSystem}
    (hgrows : Grows written old new) {last : LastName} {path : String} {place : Place}
    (h : old.locate last path = .ok place)
    (hkeep : last = .keep → ∀ target, old.root.at? place.goal ≠ some (.link target))
    (hfree : ∀ directory name, place = .free directory name →
      last = .create ∧ ∃ e, new.root.at? (directory ++ [name]) = some e) :
    new.locate .follow path = .ok (.found place.goal) := by
  obtain ⟨start, goal, hstart, hwalks, hgoal⟩ :=
    exists_walks_of_locate hgrows h hkeep hfree
  rw [locate_of_walks (locate_eq_ok h).1 hstart hwalks, hgoal]

/-! ## Where paths lead once they are made -/

/-- The steps along pieces from a place, whether or not something is there. Every piece that is no
    link is taken for a directory. -/
inductive LeadStep (root : Entry) : List String → String → List String → List String → Prop where
  | stay {place : List String} {piece : String} :
    piece = "" ∨ piece = "." → LeadStep root place piece place []
  | up {place : List String} : LeadStep root place ".." place.dropLast []
  | link {place : List String} {piece target : String} :
    IsName piece → root.at? (place ++ [piece]) = some (.link target) →
      LeadStep root place piece (linkStart target place) (FilePath.pieces target)
  | down {place : List String} {piece : String} :
    IsName piece → (∀ target, root.at? (place ++ [piece]) ≠ some (.link target)) →
      LeadStep root place piece (place ++ [piece]) []

/-- Where pieces lead from a place. -/
def Leads (root : Entry) : List String → List String → List String → Prop :=
  Way (LeadStep root)

theorem WalkStep.leadStep {root : Entry} {s next : Stage} {piece : String} {front : List String}
    (h : WalkStep root s piece next front) (hvalid : s.trail.IsValid root) :
    LeadStep root s.trail.names piece next.trail.names front := by
  cases h with
  | stay _ hpiece => exact .stay hpiece
  | up _ =>
    rw [Trail.names_tail]
    exact .up
  | link hname hchild _ =>
    rw [names_linkStart]
    exact .link hname (by rw [Trail.IsValid.at?_concat hvalid, hchild])
  | down hname hchild hnotlink =>
    rw [Trail.names_cons]
    refine .down hname ?_
    intro target hlink
    rw [hvalid.at?_concat, hchild] at hlink
    exact hnotlink target (Option.some.inj hlink)

theorem Walks.leads {root : Entry} {s goal : Stage} {pieces : List String}
    (h : Walks root s pieces goal) (hvalid : s.trail.IsValid root) :
    Leads root s.trail.names pieces goal.trail.names := by
  induction h with
  | done => exact .done _
  | step hstep _ ih => exact .step (hstep.leadStep hvalid) (ih (hstep.isValid hvalid))

/-- Growth does not change where pieces lead, since it leaves the links alone. -/
theorem Leads.of_grows {written : List String → Prop} {old new : Entry}
    (hgrows : Entry.Grows written old new) {place pieces goal : List String}
    (h : Leads new place pieces goal) : Leads old place pieces goal := by
  refine Way.mono ?_ h
  intro place piece next front hstep
  cases hstep with
  | stay hpiece => exact .stay hpiece
  | up => exact .up
  | link hname hlink => exact .link hname (hgrows.link_iff.mp hlink)
  | down hname hnotlink =>
    exact .down hname fun target hlink => hnotlink target (hgrows.link_iff.mpr hlink)

theorem IsName.not_stay {piece : String} (h : IsName piece) : ¬ (piece = "" ∨ piece = ".") := by
  rintro (hempty | hdot)
  · exact h.1 hempty
  · exact h.2.1 hdot

theorem LeadStep.unique {root : Entry} {place next next' : List String} {piece : String}
    {front front' : List String} (h : LeadStep root place piece next front)
    (h' : LeadStep root place piece next' front') : next = next' ∧ front = front' := by
  cases h with
  | stay hpiece =>
    cases h' with
    | stay _ => exact ⟨rfl, rfl⟩
    | up => simp at hpiece
    | link hname _ => exact absurd hpiece hname.not_stay
    | down hname _ => exact absurd hpiece hname.not_stay
  | up =>
    cases h' with
    | stay hpiece => simp at hpiece
    | up => exact ⟨rfl, rfl⟩
    | link hname _ => exact absurd rfl hname.2.2.1
    | down hname _ => exact absurd rfl hname.2.2.1
  | link hname hlink =>
    cases h' with
    | stay hpiece => exact absurd hpiece hname.not_stay
    | up => exact absurd rfl hname.2.2.1
    | link _ hlink' =>
      obtain rfl := Entry.link.inj (Option.some.inj (hlink.symm.trans hlink'))
      exact ⟨rfl, rfl⟩
    | down _ hnotlink => exact absurd hlink (hnotlink _)
  | down hname hnotlink =>
    cases h' with
    | stay hpiece => exact absurd hpiece hname.not_stay
    | up => exact absurd rfl hname.2.2.1
    | link _ hlink => exact absurd hlink (hnotlink _)
    | down _ _ => exact ⟨rfl, rfl⟩

theorem Leads.unique {root : Entry} {place pieces goal goal' : List String}
    (h : Leads root place pieces goal) (h' : Leads root place pieces goal') : goal = goal' :=
  Way.unique (fun hstep hstep' => hstep.unique hstep') h h'

/-- Names lead straight down where there are no links. -/
theorem Leads.eq_append {root : Entry} {place names goal : List String}
    (h : Leads root place names goal) (hnames : ∀ name ∈ names, IsName name)
    (hlinks : ∀ below target, root.at? (place ++ below) ≠ some (.link target)) :
    goal = place ++ names := by
  induction h with
  | done place => exact (List.append_nil place).symm
  | step hstep _ ih =>
    have hname := hnames _ List.mem_cons_self
    cases hstep with
    | stay hpiece => exact absurd hpiece hname.not_stay
    | up => exact absurd rfl hname.2.2.1
    | link _ hlink => exact absurd hlink (hlinks _ _)
    | down _ _ =>
      rw [ih (fun name hname => hnames name (List.mem_cons_of_mem _ hname))]
      · simp
      · intro below target
        rw [List.append_assoc]
        exact hlinks _ _

/-- Where a path leads, whether or not something is there. -/
def LeadsTo (fs : FileSystem) (path : String) (goal : List String) : Prop :=
  Leads fs.root (fs.startOf path) (FilePath.pieces path) goal

theorem LeadsTo.of_grows {written : List String → Prop} {old new : FileSystem}
    (hgrows : Grows written old new) {path : String} {goal : List String}
    (h : new.LeadsTo path goal) : old.LeadsTo path goal := by
  rw [LeadsTo, hgrows.startOf] at h
  exact Leads.of_grows hgrows.root h

/-- A path leads to where it is found, or to the free name at which it is made. -/
theorem leadsTo_of_locate {written : List String → Prop} {old new : FileSystem}
    (hgrows : Grows written old new) {last : LastName} {path : String} {place : Place}
    (h : old.locate last path = .ok place)
    (hkeep : last = .keep → ∀ target, old.root.at? place.goal ≠ some (.link target))
    (hfree : ∀ directory name, place = .free directory name →
      last = .create ∧ ∃ e, new.root.at? (directory ++ [name]) = some e) :
    new.LeadsTo path place.goal := by
  obtain ⟨start, goal, hstart, hwalks, hgoal⟩ :=
    exists_walks_of_locate hgrows h hkeep hfree
  obtain ⟨hvalid, hnames⟩ := Trail.isValid_of_extend? hstart trivial
  have hleads := hwalks.leads hvalid
  rw [hnames, hgoal] at hleads
  exact hleads

end FileSystem

end DefineFold
