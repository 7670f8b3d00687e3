/-
  DefineFold.Proofs.Value.Preorder

  Listing in pre-order, for anything whose parts lie under keys: a configuration value, or a node
  of a graph together with the containers above it. What lies below is told apart by addresses:
  the numbers of the children on the way down. Two children may have one key, so that keys alone
  would not do. In the lexicographic order of addresses everything comes before what lies below
  it, and what lies below a child comes before the next child: that is the pre-order.

  A listing that goes through the children one after the other, each with the listing of what lies
  below it behind it, lists the keys of every address but the empty one, each address once and in
  that order (`exists_listed`).
-/

import Mathlib.Data.List.Forall2
import Mathlib.Data.List.Nodup

namespace DefineFold

section

variable {α : Type} (children : α → List (String × α))

/-- What lies at an address, and the keys on the way to it. -/
def descend? : α → List Nat → Option (List String × α)
  | a, [] => some ([], a)
  | a, n :: rest =>
    match (children a)[n]? with
    | none => none
    | some (key, b) => (descend? b rest).map fun found => (key :: found.1, found.2)

/-- The addresses below something, all but the empty one, each once and in pre-order, with the
    keys on the way to each of them. -/
structure Listed (a : α) (addresses : List (List Nat)) (places : List (List String)) : Prop where
  rising : addresses.Pairwise (· < ·)
  mem_iff : ∀ address, address ∈ addresses ↔
    address ≠ [] ∧ (descend? children a address).isSome = true
  keys : List.Forall₂ (fun address keys => ∃ b, descend? children a address = some (keys, b))
    addresses places

variable {children}

theorem descend?_cons_eq_some_iff {a : α} {n : Nat} {rest : List Nat} {keys : List String}
    {b : α} :
    descend? children a (n :: rest) = some (keys, b) ↔
      ∃ c keysBelow, (children a)[n]? = some c ∧
        descend? children c.2 rest = some (keysBelow, b) ∧ keys = c.1 :: keysBelow := by
  rw [descend?]
  cases hchild : (children a)[n]? with
  | none => simp
  | some c =>
    simp only [Option.map_eq_some_iff, Prod.mk.injEq, Option.some.injEq]
    constructor
    · rintro ⟨⟨keysBelow, b'⟩, hbelow, rfl, rfl⟩
      exact ⟨c, keysBelow, rfl, hbelow, rfl⟩
    · rintro ⟨_, keysBelow, rfl, hbelow, rfl⟩
      exact ⟨(keysBelow, b), hbelow, rfl, rfl⟩

theorem isSome_descend?_cons {a : α} {n : Nat} {rest : List Nat} :
    (descend? children a (n :: rest)).isSome = true ↔
      ∃ c, (children a)[n]? = some c ∧ (descend? children c.2 rest).isSome = true := by
  rw [descend?]
  cases hchild : (children a)[n]? with
  | none => simp
  | some c => simp

/-- The addresses of a child, itself included, come in order if those below it do. -/
theorem rising_child {addresses : List (List Nat)} (n : Nat)
    (hrising : addresses.Pairwise (· < ·)) (hne : ∀ address ∈ addresses, address ≠ []) :
    (([] :: addresses).map (n :: ·)).Pairwise (· < ·) := by
  rw [List.pairwise_map, List.pairwise_cons]
  constructor
  · intro address haddress
    cases address with
    | nil => exact absurd rfl (hne [] haddress)
    | cons m rest => exact .cons .nil
  · exact hrising.imp fun h => .cons h

/-- The numbers of the members of a list rise. -/
theorem pairwise_zipIdx {β : Type} (xs : List β) :
    xs.zipIdx.Pairwise fun x y => x.2 < y.2 := by
  have hnumbers : (xs.zipIdx.map Prod.snd).Pairwise (· < ·) := by
    rw [List.zipIdx_map_snd]
    exact List.pairwise_lt_range'
  exact List.pairwise_map.mp hnumbers

/-- The addresses of children and of what lies below each of them. -/
def childAddresses (below : String × α → List (List Nat)) (cs : List (String × α)) :
    List (List Nat) :=
  cs.zipIdx.flatMap fun x => ([] :: below x.1).map (x.2 :: ·)

section

variable {a : α} {below : String × α → List (List Nat)} {places : α → List (List String)}
  (hbelow : ∀ c ∈ children a, Listed children c.2 (below c) (places c.2))

include hbelow

theorem rising_childAddresses : (childAddresses below (children a)).Pairwise (· < ·) := by
  rw [childAddresses, List.pairwise_flatMap]
  constructor
  · intro x hx
    have hlisted := hbelow x.1 (List.mem_of_getElem? (List.mem_zipIdx_iff_getElem?.mp hx))
    exact rising_child x.2 hlisted.rising fun address h => ((hlisted.mem_iff address).mp h).1
  · -- Addresses of different children differ in their first number.
    refine (pairwise_zipIdx (children a)).imp ?_
    intro x y hlt p hp q hq
    obtain ⟨p, -, rfl⟩ := List.mem_map.mp hp
    obtain ⟨q, -, rfl⟩ := List.mem_map.mp hq
    exact .rel hlt

theorem mem_childAddresses_iff {address : List Nat} :
    address ∈ childAddresses below (children a) ↔
      address ≠ [] ∧ (descend? children a address).isSome = true := by
  rw [childAddresses, List.mem_flatMap]
  constructor
  · rintro ⟨x, hx, haddress⟩
    obtain ⟨rest, hrest, rfl⟩ := List.mem_map.mp haddress
    have hchild := List.mem_zipIdx_iff_getElem?.mp hx
    refine ⟨List.cons_ne_nil _ _, isSome_descend?_cons.mpr ⟨x.1, hchild, ?_⟩⟩
    rcases List.mem_cons.mp hrest with rfl | hrest
    · rfl
    · exact (((hbelow x.1 (List.mem_of_getElem? hchild)).mem_iff rest).mp hrest).2
  · rintro ⟨hne, hsome⟩
    cases address with
    | nil => exact absurd rfl hne
    | cons n rest =>
      obtain ⟨c, hc, hsome⟩ := isSome_descend?_cons.mp hsome
      refine ⟨(c, n), List.mem_zipIdx_iff_getElem?.mpr hc, List.mem_map.mpr ⟨rest, ?_, rfl⟩⟩
      cases rest with
      | nil => exact List.mem_cons_self
      | cons m rest =>
        have hlisted := hbelow c (List.mem_of_getElem? hc)
        exact List.mem_cons_of_mem _
          ((hlisted.mem_iff _).mpr ⟨List.cons_ne_nil _ _, hsome⟩)

/-- The keys on the way to a numbered child and to what lies below it. -/
theorem keys_numbered {x : (String × α) × Nat} (hx : x ∈ (children a).zipIdx) :
    List.Forall₂ (fun address keys => ∃ b, descend? children a address = some (keys, b))
      (([] :: below x.1).map (x.2 :: ·)) (([] :: places x.1.2).map (x.1.1 :: ·)) := by
  have hchild := List.mem_zipIdx_iff_getElem?.mp hx
  have hstep : ∀ {address keys}, (∃ b, descend? children x.1.2 address = some (keys, b)) →
      ∃ b, descend? children a (x.2 :: address) = some (x.1.1 :: keys, b) := by
    rintro address keys ⟨b, hb⟩
    exact ⟨b, descend?_cons_eq_some_iff.mpr ⟨x.1, keys, hchild, hb, rfl⟩⟩
  have hlisted := hbelow x.1 (List.mem_of_getElem? hchild)
  rw [List.forall₂_map_left_iff, List.forall₂_map_right_iff]
  exact .cons (hstep ⟨x.1.2, rfl⟩) (hlisted.keys.imp fun _ _ => hstep)

theorem keys_childAddresses :
    List.Forall₂ (fun address keys => ∃ b, descend? children a address = some (keys, b))
      (childAddresses below (children a))
      ((children a).flatMap fun c => ([] :: places c.2).map (c.1 :: ·)) := by
  -- The children are the numbered children without their numbers.
  have hsame : (children a).flatMap (fun c => ([] :: places c.2).map (c.1 :: ·)) =
      (children a).zipIdx.flatMap fun x => ([] :: places x.1.2).map (x.1.1 :: ·) := by
    conv_lhs => rw [← List.zipIdx_map_fst 0 (children a), List.flatMap_map]
  rw [hsame, childAddresses]
  have hnumbered : ∀ x ∈ (children a).zipIdx, _ := fun x hx => keys_numbered hbelow hx
  generalize (children a).zipIdx = numbered at hnumbered
  induction numbered with
  | nil => exact .nil
  | cons x rest ih =>
    rw [List.flatMap_cons, List.flatMap_cons]
    exact List.rel_append (hnumbered x List.mem_cons_self)
      (ih fun y hy => hnumbered y (List.mem_cons_of_mem _ hy))

end

/-- What is listed child by child, each child before what is listed below it, is listed in
    pre-order and in full. -/
theorem exists_listed (hdown : WellFounded fun b a => ∃ key, (key, b) ∈ children a)
    {places : α → List (List String)}
    (hplaces : ∀ a, places a =
      (children a).flatMap fun c => ([] :: places c.2).map (c.1 :: ·)) (a : α) :
    ∃ addresses, Listed children a addresses (places a) := by
  induction a using hdown.induction with
  | _ a ih =>
    have hchildren : ∀ c ∈ children a, ∃ addresses,
        Listed children c.2 addresses (places c.2) :=
      fun c hc => ih c.2 ⟨c.1, hc⟩
    choose! below hbelow using hchildren
    refine ⟨childAddresses below (children a), rising_childAddresses hbelow,
      fun _ => mem_childAddresses_iff hbelow, ?_⟩
    rw [hplaces a]
    exact keys_childAddresses hbelow

/-- The keys on the way to an address. -/
def keysTo (children : α → List (String × α)) (a : α) (address : List Nat) : List String :=
  ((descend? children a address).map Prod.fst).getD []

theorem keysTo_of_descend? {a b : α} {address : List Nat} {keys : List String}
    (h : descend? children a address = some (keys, b)) : keysTo children a address = keys := by
  rw [keysTo, h]
  rfl

namespace Listed

variable {a : α} {addresses : List (List Nat)} {places : List (List String)}

theorem places_eq (h : Listed children a addresses places) :
    places = addresses.map (keysTo children a) := by
  have hkeys : List.Forall₂ (fun address keys => keysTo children a address = keys)
      addresses places := by
    refine h.keys.imp ?_
    rintro address keys ⟨b, hb⟩
    exact keysTo_of_descend? hb
  rw [← List.forall₂_map_left_iff, List.forall₂_eq_eq_eq] at hkeys
  exact hkeys.symm

theorem exists_descend? (h : Listed children a addresses places) {address : List Nat}
    (haddress : address ∈ addresses) :
    ∃ b, descend? children a address = some (keysTo children a address, b) := by
  obtain ⟨⟨keys, b⟩, hb⟩ := Option.isSome_iff_exists.mp ((h.mem_iff address).mp haddress).2
  exact ⟨b, by rw [keysTo_of_descend? hb, hb]⟩

theorem mem_places_iff (h : Listed children a addresses places) {keys : List String} :
    keys ∈ places ↔ ∃ address b, address ≠ [] ∧ descend? children a address = some (keys, b) := by
  rw [h.places_eq, List.mem_map]
  constructor
  · rintro ⟨address, haddress, rfl⟩
    obtain ⟨b, hb⟩ := h.exists_descend? haddress
    exact ⟨address, b, ((h.mem_iff address).mp haddress).1, hb⟩
  · rintro ⟨address, b, hne, hb⟩
    exact ⟨address, (h.mem_iff address).mpr ⟨hne, by rw [hb]; rfl⟩, keysTo_of_descend? hb⟩

/-- Where keys tell addresses apart, no keys are listed twice. -/
theorem nodup (h : Listed children a addresses places)
    (hinj : ∀ {p q keys b c}, descend? children a p = some (keys, b) →
      descend? children a q = some (keys, c) → p = q) :
    places.Nodup := by
  have hdistinct : addresses.Nodup := by
    refine h.rising.imp ?_
    rintro p q hlt rfl
    exact List.lt_irrefl p hlt
  rw [h.places_eq]
  refine hdistinct.map_on ?_
  intro p hp q hq heq
  obtain ⟨b, hb⟩ := h.exists_descend? hp
  obtain ⟨c, hc⟩ := h.exists_descend? hq
  exact hinj hb (heq ▸ hc)

end Listed

end

end DefineFold
