import TbjitAlloc.Common
import TbjitAlloc.Core.Probing

/-!
# The dispatch table

The table maps a call site to its compiled routine.  It probes linearly, never
frees a slot, and marks an unused slot by the id zero, which is also a value a
hashed return address can take.
-/

namespace TbjitAlloc.Dispatch

open TbjitAlloc.Probing

/-- `TABLE_SIZE`. -/
def tableSize : ℕ := 4096

structure Entry where
  fn : ℕ
  id : CallSiteID
  deriving DecidableEq, Repr

/-- `g_table` and `g_generation`.  A routine is its address. -/
structure Table where
  entries : ℕ → Entry
  generation : ℕ

/-- The state `init` leaves. -/
def Table.initial : Table where
  entries := fun _ => ⟨0, 0⟩
  generation := 1

/-- The first slot that holds the id or is marked as unused. -/
def find (table : ℕ → Entry) (id : CallSiteID) : Option ℕ :=
  scan tableSize (fun slot => (table slot).id == id || (table slot).id == 0)
    tableSize (id % tableSize)

/-- `install`; `none` is its failed assertion. -/
def install (dispatch : Table) (id : CallSiteID) (fn : ℕ) :
    Option Table :=
  (find dispatch.entries id).map fun slot =>
    { dispatch with
      entries := Function.update dispatch.entries slot ⟨fn, id⟩
      generation := dispatch.generation + 1 }

def revert (dispatch : Table) (id : CallSiteID) : Table :=
  match find dispatch.entries id with
  | none => dispatch
  | some slot =>
      if (dispatch.entries slot).id = id then
        { dispatch with
          entries := Function.update dispatch.entries slot
            { dispatch.entries slot with fn := 0 }
          generation := dispatch.generation + 1 }
      else dispatch

def lookup (dispatch : Table) (id : CallSiteID) : ℕ :=
  match find dispatch.entries id with
  | none => 0
  | some slot =>
      if (dispatch.entries slot).id ≠ id then 0 else (dispatch.entries slot).fn

/-! ## Histories -/

inductive Update
  | install (id : CallSiteID) (fn : ℕ)
  | revert (id : CallSiteID)
  deriving DecidableEq, Repr

def apply (dispatch : Table) : Update → Option Table
  | .install id fn => install dispatch id fn
  | .revert id => some (revert dispatch id)

def history (updates : List Update) : Option Table :=
  updates.foldlM apply .initial

/-- The routine of a site after one more update. -/
def recordUpdate (routine : CallSiteID → ℕ) : Update → CallSiteID → ℕ
  | .install id fn => Function.update routine id fn
  | .revert id => Function.update routine id 0

/-- The routine of the last install of a site, unless a revert came after it. -/
def routineAfter (updates : List Update) : CallSiteID → ℕ :=
  updates.foldl recordUpdate fun _ => 0

def Update.installed : Update → Option CallSiteID
  | .install id _ => some id
  | .revert _ => none

/-- The ids that are ever installed. -/
def installedIds (updates : List Update) : Finset CallSiteID :=
  (updates.filterMap Update.installed).toFinset

/-! ## The table as a map -/

/-- The slots in use, as a probing table whose entries are their own keys. -/
def occupied (table : ℕ → Entry) (slot : ℕ) : Option CallSiteID :=
  if (table slot).id = 0 then none else some (table slot).id

/-- The slot a search starts at. -/
def home (id : CallSiteID) : ℕ := id % tableSize

theorem home_lt (id : CallSiteID) : home id < tableSize :=
  Nat.mod_lt _ (by decide)

theorem occupied_eq_some {table : ℕ → Entry} {slot : ℕ} {id : CallSiteID} :
    occupied table slot = some id ↔ id ≠ 0 ∧ (table slot).id = id := by
  rw [occupied]
  split
  · next hzero =>
      simp only [hzero, reduceCtorEq, ne_eq, false_iff, not_and]
      exact fun hne heq => hne heq.symm
  · next hne =>
      rw [Option.some.injEq]
      exact ⟨fun heq => ⟨heq ▸ hne, heq⟩, And.right⟩

theorem occupied_eq_none {table : ℕ → Entry} {slot : ℕ} :
    occupied table slot = none ↔ (table slot).id = 0 := by
  rw [occupied]
  split
  · next hzero => simp [hzero]
  · next hne => simp [hne]

/-- In this table an id is its own key. -/
def siteKey (id : CallSiteID) : CallSiteID := id

/-- The code's search is the library's; for the id zero both stop at the first
slot that is not in use. -/
theorem find_eq_scan (table : ℕ → Entry) (id : CallSiteID) :
    find table id =
      scan tableSize (stops siteKey (occupied table) id) tableSize
        (home id) := by
  have hstop : (fun slot => (table slot).id == id || (table slot).id == 0) =
      stops siteKey (occupied table) id := by
    funext slot
    by_cases hzero : (table slot).id = 0
    · rw [stops_of_none (occupied_eq_none.mpr hzero), hzero, beq_self_eq_true,
        Bool.or_true]
    · rw [stops_of_some (occupied_eq_some.mpr ⟨hzero, rfl⟩),
        beq_false_of_ne hzero, Bool.or_false]
      rfl
  rw [find, hstop, home]

theorem find_congr {table next : ℕ → Entry}
    (hsame : occupied next = occupied table) (id : CallSiteID) :
    find next id = find table id := by
  rw [find_eq_scan, find_eq_scan, hsame]

theorem not_stored_zero (table : ℕ → Entry) :
    ¬Stored tableSize (occupied table) 0 := by
  rintro ⟨slot, -, hslot⟩
  exact (occupied_eq_some.mp hslot).1 rfl

/-- The search for an id that is not stored ends at an unused slot. -/
theorem find_of_absent {table : ℕ → Entry} {id slot : ℕ}
    (habsent : ¬Stored tableSize (occupied table) id)
    (hfind : find table id = some slot) :
    slot < tableSize ∧ (table slot).id = 0 ∧
      ∃ offset < tableSize, cell tableSize (home id) offset = slot ∧
        ∀ earlier < offset,
          occupied table (cell tableSize (home id) earlier) ≠ none := by
  rw [find_eq_scan] at hfind
  have hother : ∀ other, Stored tableSize (occupied table) other →
      siteKey other ≠ id := by
    rintro other hstored rfl
    exact habsent hstored
  obtain ⟨hempty, hpath⟩ := scan_of_absent (home_lt id) hother hfind
  exact ⟨scan_lt (home_lt id) hfind, occupied_eq_none.mp hempty, hpath⟩

theorem find_zero {table : ℕ → Entry} {slot : ℕ}
    (hfind : find table 0 = some slot) :
    slot < tableSize ∧ (table slot).id = 0 :=
  have hfound := find_of_absent (not_stored_zero table) hfind
  ⟨hfound.1, hfound.2.1⟩

/-- The search fails only in a table without an unused slot. -/
theorem find_eq_none {table : ℕ → Entry} {id : CallSiteID}
    (hfind : find table id = none) :
    ¬Stored tableSize (occupied table) id ∧
      ∀ slot < tableSize, (table slot).id ≠ 0 := by
  rw [find_eq_scan, scan_size_eq_none (home_lt id)] at hfind
  constructor
  · rintro ⟨slot, hslot, hid⟩
    have hstop := hfind slot hslot
    rw [stops_of_some hid, siteKey, decide_eq_false_iff_not] at hstop
    exact hstop rfl
  · intro slot hslot hzero
    have hstop := hfind slot hslot
    rw [stops_of_none (occupied_eq_none.mpr hzero)] at hstop
    cases hstop

/-- The table holds these routines.  The routine of the id zero is in the unused
slot that a search for zero stops at. -/
structure Represents (dispatch : Table) (routine : CallSiteID → ℕ) :
    Prop where
  probed : Probed tableSize siteKey home (occupied dispatch.entries)
  held : ∀ slot < tableSize, (dispatch.entries slot).id ≠ 0 →
    (dispatch.entries slot).fn = routine (dispatch.entries slot).id
  absent : ∀ id, id ≠ 0 →
    ¬Stored tableSize (occupied dispatch.entries) id → routine id = 0
  unused : ∀ slot < tableSize, (dispatch.entries slot).id = 0 →
    (dispatch.entries slot).fn =
      if find dispatch.entries 0 = some slot then routine 0 else 0
  full : find dispatch.entries 0 = none → routine 0 = 0

section Map

variable {dispatch : Table} {routine : CallSiteID → ℕ}

theorem represents_initial : Represents .initial fun _ => 0 where
  probed := probed_empty
  held := fun _ _ hne => absurd rfl hne
  absent := fun _ _ _ => rfl
  unused := by
    intro slot _ _
    split <;> rfl
  full := fun _ => rfl

/-- The search for a stored id ends at its slot. -/
theorem Represents.find_of_stored (hrep : Represents dispatch routine)
    {slot : ℕ} (hslot : slot < tableSize)
    (hne : (dispatch.entries slot).id ≠ 0) :
    find dispatch.entries (dispatch.entries slot).id = some slot := by
  rw [find_eq_scan]
  exact hrep.probed.scan_of_stored (home_lt _) hslot
    (occupied_eq_some.mpr ⟨hne, rfl⟩) rfl

/-- The search ends at the id's own slot or, where it has none, at an unused
one. -/
theorem Represents.find_cases (hrep : Represents dispatch routine)
    {id slot : ℕ} (hfind : find dispatch.entries id = some slot) :
    slot < tableSize ∧ ((dispatch.entries slot).id = id ∨
      id ≠ 0 ∧ ¬Stored tableSize (occupied dispatch.entries) id ∧
        (dispatch.entries slot).id = 0) := by
  by_cases hstored : Stored tableSize (occupied dispatch.entries) id
  · obtain ⟨place, hplace, hid⟩ := hstored
    obtain ⟨hne, rfl⟩ := occupied_eq_some.mp hid
    rw [hrep.find_of_stored hplace hne] at hfind
    obtain rfl := Option.some.inj hfind
    exact ⟨hplace, .inl rfl⟩
  · obtain ⟨hslot, hzero, -⟩ := find_of_absent hstored hfind
    refine ⟨hslot, ?_⟩
    by_cases hid : id = 0
    · exact .inl (hzero.trans hid.symm)
    · exact .inr ⟨hid, hstored, hzero⟩

theorem Represents.lookup_eq (hrep : Represents dispatch routine)
    (id : CallSiteID) : lookup dispatch id = routine id := by
  rw [lookup]
  cases hfind : find dispatch.entries id with
  | none =>
      by_cases hid : id = 0
      · subst hid
        exact (hrep.full hfind).symm
      · exact (hrep.absent id hid (find_eq_none hfind).1).symm
  | some slot =>
      dsimp only
      obtain ⟨hslot, hown | ⟨hid, habsent, hzero⟩⟩ := hrep.find_cases hfind
      · rw [if_neg (not_not_intro hown)]
        by_cases hid : id = 0
        · subst hid
          rw [hrep.unused slot hslot hown, if_pos hfind]
        · rw [hrep.held slot hslot (by rwa [hown]), hown]
      · rw [if_pos (by rw [hzero]; exact hid.symm), hrep.absent id hid habsent]

/-- Storing a routine in the slot that already serves the id. -/
theorem Represents.store (hrep : Represents dispatch routine) {id slot : ℕ}
    (hfind : find dispatch.entries id = some slot)
    (hown : (dispatch.entries slot).id = id) (fn generation : ℕ) :
    Represents ⟨Function.update dispatch.entries slot ⟨fn, id⟩, generation⟩
      (Function.update routine id fn) := by
  have hid : ∀ place,
      (Function.update dispatch.entries slot ⟨fn, id⟩ place).id =
        (dispatch.entries place).id := by
    intro place
    by_cases heq : place = slot
    · rw [heq, Function.update_self, hown]
    · rw [Function.update_of_ne heq]
  have hsame : occupied (Function.update dispatch.entries slot ⟨fn, id⟩) =
      occupied dispatch.entries := by
    funext place
    rw [occupied, occupied, hid]
  have hslot := (hrep.find_cases hfind).1
  constructor
  · exact hsame.symm ▸ hrep.probed
  · intro place hplace hne
    dsimp only at hne ⊢
    rw [hid] at hne ⊢
    by_cases heq : place = slot
    · rw [heq, Function.update_self, hown, Function.update_self]
    · have hother : (dispatch.entries place).id ≠ id := by
        intro hsameId
        have hfound := hrep.find_of_stored hplace hne
        rw [hsameId, hfind, Option.some.injEq] at hfound
        exact heq hfound.symm
      rw [Function.update_of_ne heq, Function.update_of_ne hother,
        hrep.held place hplace hne]
  · intro other hne habsent
    have hstored : ¬Stored tableSize (occupied dispatch.entries) other :=
      hsame ▸ habsent
    have hother : other ≠ id := by
      rintro rfl
      exact hstored ⟨slot, hslot, occupied_eq_some.mpr ⟨hne, hown⟩⟩
    rw [Function.update_of_ne hother, hrep.absent other hne hstored]
  · intro place hplace hzero
    dsimp only at hzero ⊢
    rw [hid] at hzero
    rw [find_congr hsame]
    by_cases heq : place = slot
    · have hnull : id = 0 := by rw [← hown, ← heq, hzero]
      subst hnull
      rw [heq, Function.update_self, if_pos hfind, Function.update_self]
    · rw [Function.update_of_ne heq, hrep.unused place hplace hzero]
      by_cases hnull : id = 0
      · subst hnull
        have hne : find dispatch.entries 0 ≠ some place := by
          rw [hfind, ne_eq, Option.some.injEq]
          exact fun h => heq h.symm
        rw [if_neg hne, if_neg hne]
      · rw [Function.update_of_ne (Ne.symm hnull)]
  · intro hnone
    rw [find_congr hsame] at hnone
    have hne : (0 : CallSiteID) ≠ id := by
      rintro rfl
      rw [hfind] at hnone
      cases hnone
    rw [Function.update_of_ne hne, hrep.full hnone]

/-- An id that has no slot yet takes one.  Nothing is lost unless that is the
slot of the routine of the id zero. -/
theorem Represents.take (hrep : Represents dispatch routine) {id slot : ℕ}
    (hid : id ≠ 0) (habsent : ¬Stored tableSize (occupied dispatch.entries) id)
    (hfind : find dispatch.entries id = some slot)
    (hkept : find dispatch.entries id = find dispatch.entries 0 → routine 0 = 0)
    (fn generation : ℕ) :
    Represents ⟨Function.update dispatch.entries slot ⟨fn, id⟩, generation⟩
      (Function.update routine id fn) := by
  obtain ⟨hslot, hempty, offset, hoffset, hcell, hearlier⟩ :=
    find_of_absent habsent hfind
  have hoccupied : occupied (Function.update dispatch.entries slot ⟨fn, id⟩) =
      Function.update (occupied dispatch.entries) slot (some id) := by
    funext place
    by_cases heq : place = slot
    · rw [heq, Function.update_self, occupied_eq_some, Function.update_self]
      exact ⟨hid, rfl⟩
    · rw [occupied, Function.update_of_ne heq, Function.update_of_ne heq,
        occupied]
  -- The slot of the routine of the id zero stays the first unused one.
  have hzero : routine 0 ≠ 0 →
      find (Function.update dispatch.entries slot ⟨fn, id⟩) 0 =
        find dispatch.entries 0 := by
    intro hroutine
    cases hfirst : find dispatch.entries 0 with
    | none => exact absurd (hrep.full hfirst) hroutine
    | some first =>
        have hne : first ≠ slot := by
          rintro rfl
          exact hroutine (hkept (hfind.trans hfirst.symm))
        obtain ⟨-, hunused, steps, hsteps, hreach, hbusy⟩ :=
          find_of_absent (not_stored_zero _) hfirst
        rw [find_eq_scan, hoccupied, scan_eq_some (home_lt 0)]
        refine ⟨steps, hsteps, hreach, stops_of_none ?_, fun earlier hlt => ?_⟩
        · rw [Function.update_of_ne hne, occupied_eq_none, hunused]
        · have hplace : Function.update (occupied dispatch.entries) slot (some id)
              (cell tableSize (home 0) earlier) ≠ none := by
            by_cases heq : cell tableSize (home 0) earlier = slot
            · rw [heq, Function.update_self]
              exact Option.some_ne_none _
            · rw [Function.update_of_ne heq]
              exact hbusy earlier hlt
          obtain ⟨other, hother⟩ := Option.ne_none_iff_exists'.mp hplace
          rw [stops_of_some hother, decide_eq_false_iff_not, siteKey]
          rintro rfl
          rw [← hoccupied] at hother
          exact (occupied_eq_some.mp hother).1 rfl
  have hnull : (0 : CallSiteID) ≠ id := hid.symm
  constructor
  · rw [hoccupied]
    refine hrep.probed.insert hoffset hcell hearlier ?_
    rintro other hstored rfl
    exact habsent hstored
  · intro place hplace hne
    dsimp only at hne ⊢
    by_cases heq : place = slot
    · rw [heq, Function.update_self, Function.update_self]
    · rw [Function.update_of_ne heq] at hne ⊢
      have hother : (dispatch.entries place).id ≠ id := by
        rintro rfl
        exact habsent ⟨place, hplace, occupied_eq_some.mpr ⟨hne, rfl⟩⟩
      rw [Function.update_of_ne hother, hrep.held place hplace hne]
  · intro other hne hother
    rw [hoccupied, stored_update_some hslot (occupied_eq_none.mpr hempty),
      not_or] at hother
    rw [Function.update_of_ne hother.1, hrep.absent other hne hother.2]
  · intro place hplace hunused
    dsimp only at hunused ⊢
    have hne : place ≠ slot := by
      rintro rfl
      rw [Function.update_self] at hunused
      exact hid hunused
    rw [Function.update_of_ne hne] at hunused ⊢
    rw [hrep.unused place hplace hunused, Function.update_of_ne hnull]
    by_cases hroutine : routine 0 = 0
    · rw [hroutine, ite_self, ite_self]
    · rw [hzero hroutine]
  · intro hnone
    rw [Function.update_of_ne hnull]
    by_contra hroutine
    rw [hzero hroutine] at hnone
    exact hroutine (hrep.full hnone)

theorem Represents.revert (hrep : Represents dispatch routine)
    (id : CallSiteID) :
    Represents (revert dispatch id) (Function.update routine id 0) := by
  have hsame : routine id = 0 → Function.update routine id 0 = routine := by
    intro hzero
    rw [← hzero, Function.update_eq_self]
  have hlookup := hrep.lookup_eq id
  rw [lookup] at hlookup
  rw [Dispatch.revert]
  cases hfind : find dispatch.entries id with
  | none =>
      simp only [hfind] at hlookup
      rwa [hsame hlookup.symm]
  | some slot =>
      simp only [hfind] at hlookup
      dsimp only
      split
      · next hown =>
          have hentry : { dispatch.entries slot with fn := 0 } =
              (⟨0, id⟩ : Entry) := by
            rw [← hown]
          rw [hentry]
          exact hrep.store hfind hown 0 _
      · next hown =>
          rw [if_pos hown] at hlookup
          rwa [hsame hlookup.symm]

/-- A successful install, unless it takes the slot of the id zero. -/
theorem Represents.install (hrep : Represents dispatch routine)
    {id fn : ℕ} {next : Table}
    (hinstall : install dispatch id fn = some next)
    (hkept : id ≠ 0 → find dispatch.entries id = find dispatch.entries 0 →
      routine 0 = 0) :
    Represents next (Function.update routine id fn) := by
  obtain ⟨slot, hfind, rfl⟩ := Option.map_eq_some_iff.mp hinstall
  obtain ⟨-, hown | ⟨hid, habsent, -⟩⟩ := hrep.find_cases hfind
  · exact hrep.store hfind hown fn _
  · exact hrep.take hid habsent hfind (hkept hid) fn _

/-- If it does, the routine of the id zero is gone. -/
theorem Represents.lookup_zero_of_taken (hrep : Represents dispatch routine)
    {id fn : ℕ} {next : Table}
    (hinstall : Dispatch.install dispatch id fn = some next) (hid : id ≠ 0)
    (htaken : find dispatch.entries id = find dispatch.entries 0) :
    lookup next 0 = 0 := by
  obtain ⟨slot, hfind, rfl⟩ := Option.map_eq_some_iff.mp hinstall
  rw [lookup]
  cases hfirst : find (Function.update dispatch.entries slot ⟨fn, id⟩) 0 with
  | none => rfl
  | some first =>
      dsimp only
      obtain ⟨hlt, hzero⟩ := find_zero hfirst
      have hne : first ≠ slot := by
        rintro rfl
        rw [Function.update_self] at hzero
        exact hid hzero
      have hother : find dispatch.entries 0 ≠ some first := by
        rw [← htaken, hfind, ne_eq, Option.some.injEq]
        exact hne.symm
      rw [if_neg (not_not_intro hzero), Function.update_of_ne hne]
      rw [Function.update_of_ne hne] at hzero
      rw [hrep.unused first hlt hzero, if_neg hother]

/-- An install may cost the id zero its routine, and nothing else. -/
theorem Represents.lookup_install_cases {next : Table} {id fn : ℕ}
    (htable : Represents dispatch (lookup dispatch))
    (hinstall : Dispatch.install dispatch id fn = some next) :
    Represents next (lookup next) ∧ lookup next id = fn ∧
      ∀ other, other ≠ id → lookup next other = lookup dispatch other ∨
        other = 0 ∧ lookup next other = 0 := by
  by_cases hkept : id ≠ 0 →
      find dispatch.entries id = find dispatch.entries 0 → lookup dispatch 0 = 0
  · have hrep := htable.install hinstall hkept
    have hlookup := funext hrep.lookup_eq
    rw [hlookup]
    refine ⟨hrep, Function.update_self _ _ _, fun other hne => .inl ?_⟩
    rw [Function.update_of_ne hne]
  · -- The slot of the id zero is taken, as if it had been reverted before.
    push Not at hkept
    obtain ⟨hid, htaken, hroutine⟩ := hkept
    obtain ⟨slot, hfind, rfl⟩ := Option.map_eq_some_iff.mp hinstall
    have hfirst : find dispatch.entries 0 = some slot := htaken ▸ hfind
    have hzero := (find_zero hfirst).2
    have hrevert : (Dispatch.revert dispatch 0).entries =
        Function.update dispatch.entries slot ⟨0, 0⟩ := by
      rw [Dispatch.revert, hfirst]
      dsimp only
      rw [if_pos hzero]
      dsimp only
      rw [hzero]
    have hsame : occupied (Dispatch.revert dispatch 0).entries =
        occupied dispatch.entries := by
      rw [hrevert]
      funext place
      rw [occupied, occupied]
      by_cases heq : place = slot
      · rw [heq, Function.update_self, hzero]
      · rw [Function.update_of_ne heq]
    have hagain : Dispatch.install (Dispatch.revert dispatch 0) id fn =
        some ⟨Function.update dispatch.entries slot ⟨fn, id⟩,
          (Dispatch.revert dispatch 0).generation + 1⟩ := by
      rw [Dispatch.install, find_congr hsame, hfind, Option.map_some, hrevert,
        Function.update_idem]
    have hrep := (htable.revert 0).install hagain fun _ _ =>
      Function.update_self _ _ _
    have hnext : Represents
        ⟨Function.update dispatch.entries slot ⟨fn, id⟩,
          dispatch.generation + 1⟩
        (Function.update (Function.update (lookup dispatch) 0 0) id fn) :=
      ⟨hrep.probed, hrep.held, hrep.absent, hrep.unused, hrep.full⟩
    have hlookup := funext hnext.lookup_eq
    rw [hlookup]
    refine ⟨hnext, Function.update_self _ _ _, fun other hne => ?_⟩
    rw [Function.update_of_ne hne]
    by_cases hother : other = 0
    · exact .inr ⟨hother, by rw [hother, Function.update_self]⟩
    · exact .inl (Function.update_of_ne hother _ _)

theorem Represents.lookup_install {next : Table} {id fn : ℕ}
    (htable : Represents dispatch (lookup dispatch))
    (hinstall : Dispatch.install dispatch id fn = some next) :
    Represents next (lookup next) ∧ lookup next id = fn ∧
      ∀ other, other ≠ id → lookup next other = lookup dispatch other ∨
        lookup next other = 0 := by
  obtain ⟨hnext, hself, hother⟩ := htable.lookup_install_cases hinstall
  exact ⟨hnext, hself, fun other hne => (hother other hne).imp_right And.right⟩

/-- A table that holds only some of at most `tableSize` ids has room for the
others. -/
theorem Represents.find_ne_none (hrep : Represents dispatch routine)
    {ids : Finset CallSiteID} (hcard : ids.card ≤ tableSize)
    (hids : ∀ id, Stored tableSize (occupied dispatch.entries) id → id ∈ ids)
    {id : CallSiteID} (hid : id ∈ ids) : find dispatch.entries id ≠ none := by
  intro hnone
  obtain ⟨habsent, hbusy⟩ := find_eq_none hnone
  have hstored : ∀ slot < tableSize,
      Stored tableSize (occupied dispatch.entries) (dispatch.entries slot).id :=
    fun slot hslot => ⟨slot, hslot,
      occupied_eq_some.mpr ⟨hbusy slot hslot, rfl⟩⟩
  have hmaps : Set.MapsTo (fun slot => (dispatch.entries slot).id)
      (Finset.range tableSize) (ids.erase id) := by
    intro slot hslot
    have hheld := hstored slot (Finset.mem_range.mp hslot)
    refine Finset.mem_erase.mpr ⟨?_, hids _ hheld⟩
    rintro rfl
    exact habsent hheld
  have hinjective : Set.InjOn (fun slot => (dispatch.entries slot).id)
      (Finset.range tableSize) := by
    intro left hleft right hright heq
    have hl := Finset.mem_range.mp hleft
    have hr := Finset.mem_range.mp hright
    exact hrep.probed.unique left hl right hr _ _
      (occupied_eq_some.mpr ⟨hbusy left hl, rfl⟩)
      (occupied_eq_some.mpr ⟨hbusy right hr, rfl⟩) heq
  have hle := Finset.card_le_card_of_injOn _ hmaps hinjective
  rw [Finset.card_range, Finset.card_erase_of_mem hid] at hle
  have hpos : 0 < ids.card := Finset.card_pos.mpr ⟨id, hid⟩
  omega

end Map

/-! ## Every history -/

section Histories

variable {updates : List Update}

/-- In every state the history passes through, each lookup answers with the
routine that the last update of its id left. -/
def ActsAsMap (updates : List Update) : Prop :=
  ∀ before, before <+: updates → ∃ dispatch, history before = some dispatch ∧
    ∀ id, lookup dispatch id = routineAfter before id

/-- While the id zero has a routine, no other id takes its slot. -/
def KeepsZero (updates : List Update) : Prop :=
  ∀ before id fn, before ++ [.install id fn] <+: updates →
    ∀ dispatch, history before = some dispatch → id ≠ 0 →
      find dispatch.entries id = find dispatch.entries 0 →
        routineAfter before 0 = 0

theorem history_append (before : List Update) (update : Update) :
    history (before ++ [update]) =
      (history before).bind fun dispatch => apply dispatch update := by
  simp [history, List.foldlM_append]

theorem routineAfter_append (before : List Update) (update : Update) :
    routineAfter (before ++ [update]) =
      recordUpdate (routineAfter before) update := by
  simp [routineAfter]

theorem installedIds_subset {before : List Update}
    (hbefore : before <+: updates) : installedIds before ⊆ installedIds updates
    := by
  intro id hid
  rw [installedIds, List.mem_toFinset] at hid ⊢
  exact (hbefore.filterMap _).subset hid

/-- What one update does to the ids in the table. -/
theorem stored_apply {dispatch next : Table} {update : Update}
    (happly : apply dispatch update = some next) {id : CallSiteID}
    (hstored : Stored tableSize (occupied next.entries) id) :
    Stored tableSize (occupied dispatch.entries) id ∨
      update.installed = some id := by
  have hother : ∀ slot entry, (entry.id = (dispatch.entries slot).id ∨
      update.installed = some entry.id) →
      Stored tableSize
        (occupied (Function.update dispatch.entries slot entry)) id →
      Stored tableSize (occupied dispatch.entries) id ∨
        update.installed = some id := by
    rintro slot entry hentry ⟨place, hplace, hid⟩
    obtain ⟨hne, hid⟩ := occupied_eq_some.mp hid
    by_cases heq : place = slot
    · rw [heq, Function.update_self] at hid
      rcases hentry with hsame | hnew
      · exact .inl ⟨place, hplace,
          occupied_eq_some.mpr ⟨hne, by rw [heq, ← hsame, hid]⟩⟩
      · exact .inr (hid ▸ hnew)
    · rw [Function.update_of_ne heq] at hid
      exact .inl ⟨place, hplace, occupied_eq_some.mpr ⟨hne, hid⟩⟩
  cases update with
  | install site fn =>
      obtain ⟨slot, -, rfl⟩ := Option.map_eq_some_iff.mp happly
      exact hother slot ⟨fn, site⟩ (.inr rfl) hstored
  | revert site =>
      obtain rfl := Option.some.inj happly
      rw [revert] at hstored
      split at hstored
      · exact .inl hstored
      · next slot _ =>
          split at hstored
          · exact hother slot { dispatch.entries slot with fn := 0 } (.inl rfl)
              hstored
          · exact .inl hstored

/-- One update with room for its id and no harm to the id zero. -/
theorem Represents.apply {dispatch : Table} {routine : CallSiteID → ℕ}
    (hrep : Represents dispatch routine) {update : Update}
    (hroom : ∀ id, update.installed = some id →
      find dispatch.entries id ≠ none)
    (hkept : ∀ id fn, update = .install id fn → id ≠ 0 →
      find dispatch.entries id = find dispatch.entries 0 → routine 0 = 0) :
    ∃ next, Dispatch.apply dispatch update = some next ∧
      Represents next (recordUpdate routine update) := by
  cases update with
  | install id fn =>
      obtain ⟨slot, hslot⟩ := Option.ne_none_iff_exists'.mp (hroom id rfl)
      have hinstall : Dispatch.install dispatch id fn =
          some ⟨Function.update dispatch.entries slot ⟨fn, id⟩,
            dispatch.generation + 1⟩ := by
        rw [Dispatch.install, hslot, Option.map_some]
      exact ⟨_, hinstall, hrep.install hinstall (hkept id fn rfl)⟩
  | revert id => exact ⟨_, rfl, hrep.revert id⟩

/-- A history that keeps the id zero leaves the map it should. -/
theorem represents_history (hcard : (installedIds updates).card ≤ tableSize)
    (hkeeps : KeepsZero updates) :
    ∃ dispatch, history updates = some dispatch ∧
      Represents dispatch (routineAfter updates) ∧
      ∀ id, Stored tableSize (occupied dispatch.entries) id →
        id ∈ installedIds updates := by
  induction updates using List.reverseRecOn with
  | nil =>
      refine ⟨.initial, rfl, represents_initial, ?_⟩
      rintro id ⟨slot, -, hid⟩
      cases hid
  | append_singleton updates update ih =>
      have hbefore : updates <+: updates ++ [update] := List.prefix_append _ _
      have hsub := installedIds_subset hbefore
      obtain ⟨dispatch, hdispatch, hrep, hids⟩ :=
        ih ((Finset.card_le_card hsub).trans hcard)
          fun before id fn hinstall => hkeeps before id fn
            (hinstall.trans hbefore)
      have hmem : ∀ id, update.installed = some id →
          id ∈ installedIds (updates ++ [update]) := by
        intro id hid
        simp [installedIds, List.filterMap_append, hid]
      obtain ⟨next, hnext, hafter⟩ := hrep.apply
        (fun id hid => hrep.find_ne_none hcard (fun other hother =>
          hsub (hids other hother)) (hmem id hid))
        fun id fn heq hid htaken => hkeeps updates id fn
          (heq ▸ List.prefix_rfl) dispatch hdispatch hid htaken
      refine ⟨next, by rw [history_append, hdispatch, Option.bind_some, hnext],
        by rwa [routineAfter_append], fun id hid => ?_⟩
      rcases stored_apply hnext hid with hold | hnew
      · exact hsub (hids id hold)
      · exact hmem id hnew

theorem KeepsZero.earlier {before : List Update} (hkeeps : KeepsZero updates)
    (hbefore : before <+: updates) : KeepsZero before :=
  fun first id fn hinstall => hkeeps first id fn (hinstall.trans hbefore)

/-- A history that acts as a map keeps the id zero: the first install that took
its slot would lose its routine. -/
theorem ActsAsMap.keepsZero (hcard : (installedIds updates).card ≤ tableSize)
    (hmap : ActsAsMap updates) : KeepsZero updates := by
  induction updates using List.reverseRecOn with
  | nil =>
      intro before id fn hinstall
      simp at hinstall
  | append_singleton updates update ih =>
      have hbefore : updates <+: updates ++ [update] := List.prefix_append _ _
      have hcardBefore :=
        (Finset.card_le_card (installedIds_subset hbefore)).trans hcard
      have hkeeps := ih hcardBefore
        fun before h => hmap before (h.trans hbefore)
      intro before id fn hinstall dispatch hdispatch hid htaken
      rcases List.prefix_concat_iff.mp hinstall with hlast | hearlier
      · obtain ⟨rfl, hupdate⟩ := List.append_inj' hlast rfl
        obtain rfl := List.singleton_inj.mp hupdate
        obtain ⟨current, hcurrent, hrep, -⟩ :=
          represents_history hcardBefore hkeeps
        obtain rfl := Option.some.inj (hcurrent.symm.trans hdispatch)
        obtain ⟨next, hnext, hlookup⟩ := hmap _ List.prefix_rfl
        rw [history_append, hdispatch, Option.bind_some] at hnext
        have hlost := hrep.lookup_zero_of_taken hnext hid htaken
        rw [hlookup, routineAfter_append, recordUpdate,
          Function.update_of_ne hid.symm] at hlost
        exact hlost
      · exact hkeeps before id fn hearlier dispatch hdispatch hid htaken

/-- With at most `tableSize` ids, the dispatch table is a finite map if and only
if no install takes the slot of the id zero while that has a routine. -/
theorem actsAsMap_iff (hcard : (installedIds updates).card ≤ tableSize) :
    ActsAsMap updates ↔ KeepsZero updates := by
  refine ⟨fun hmap => hmap.keepsZero hcard, fun hkeeps before hbefore => ?_⟩
  obtain ⟨dispatch, hdispatch, hrep, -⟩ := represents_history
    ((Finset.card_le_card (installedIds_subset hbefore)).trans hcard)
    (hkeeps.earlier hbefore)
  exact ⟨dispatch, hdispatch, hrep.lookup_eq⟩

/-- Two sites with one routine each, on one probe sequence. -/
theorem actsAsMap_collision :
    ActsAsMap [.install 1 16, .install 4097 32, .revert 1] := by
  refine (actsAsMap_iff (by decide)).mpr ?_
  intro before id fn hinstall dispatch hdispatch hid htaken
  have hzero : ∀ before, before <+: [Update.install 1 16, .install 4097 32,
      .revert 1] → routineAfter before 0 = 0 := by
    intro before hbefore
    have hmem := (List.mem_inits _ _).mpr hbefore
    fin_cases hmem <;> rfl
  exact hzero before ((List.prefix_append _ _).trans hinstall)

/-- The id zero is installed, and then an id with the same home. -/
def zeroTaken : List Update := [.install 0 16, .install 4096 32]

/-- The table is not a map on every history: the routine of the id zero is lost
to another id. -/
theorem not_actsAsMap_zeroTaken :
    ¬∀ updates, (installedIds updates).card ≤ tableSize → ActsAsMap updates := by
  intro hall
  obtain ⟨dispatch, hdispatch, hlookup⟩ :=
    hall zeroTaken (by decide) zeroTaken List.prefix_rfl
  have hlost : lookup dispatch 0 = 0 := by
    obtain rfl := Option.some.inj hdispatch
    rfl
  rw [hlookup] at hlost
  exact absurd hlost (by decide)

end Histories

end TbjitAlloc.Dispatch
