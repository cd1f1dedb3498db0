import Mathlib

/-!
# Linear probing

An open-addressing table is a partial function from slots to entries.  Every
entry has a key and every key a home slot; a search for a key starts at its home
and goes on, around the end of the table, until it meets the key or an empty
slot.  The table is well probed when no search can stop before the entry it
looks for.  Removing an entry leaves a hole that may break this for the entries
behind it; a sweep that moves the entries behind the hole back repairs it, and
the sum of all distances from home bounds how often it can move one.
-/

namespace TbjitAlloc.Probing

/-! ## Slots in a circle -/

/-- The slot reached from `start` after `offset` steps. -/
def cell (size start offset : ℕ) : ℕ :=
  (start + offset) % size

/-- The first slot that stops a search of `steps` slots. -/
def scan (size : ℕ) (stop : ℕ → Bool) : ℕ → ℕ → Option ℕ
  | 0, _ => none
  | steps + 1, slot =>
      if stop slot then some slot
      else scan size stop steps ((slot + 1) % size)

section Cells

variable {size start slot : ℕ}

theorem cell_lt (hstart : start < size) (offset : ℕ) :
    cell size start offset < size :=
  Nat.mod_lt _ (Nat.zero_lt_of_lt hstart)

@[simp] theorem cell_zero (hstart : start < size) : cell size start 0 = start :=
  Nat.mod_eq_of_lt hstart

theorem cell_succ (offset : ℕ) :
    cell size ((start + 1) % size) offset = cell size start (offset + 1) := by
  rw [cell, cell, Nat.mod_add_mod, add_assoc, add_comm 1 offset]

theorem cell_cell (offset more : ℕ) :
    cell size (cell size start offset) more =
      cell size start (offset + more) := by
  rw [cell, cell, cell, Nat.mod_add_mod, add_assoc]

/-- A whole turn leads back. -/
theorem cell_size (hstart : start < size) : cell size start size = start := by
  rw [cell, Nat.add_mod_right, Nat.mod_eq_of_lt hstart]

theorem cell_injective {left right : ℕ} (hleft : left < size)
    (hright : right < size)
    (heq : cell size start left = cell size start right) : left = right := by
  have hmod : left ≡ right [MOD size] := Nat.ModEq.add_left_cancel' start heq
  exact Nat.ModEq.eq_of_lt_of_lt hmod hleft hright

/-- Every slot is reached within one turn. -/
theorem exists_cell (hstart : start < size) (hslot : slot < size) :
    ∃ offset < size, cell size start offset = slot := by
  rcases le_or_gt start slot with hle | hlt
  · refine ⟨slot - start, by omega, ?_⟩
    rw [cell, Nat.add_sub_cancel' hle, Nat.mod_eq_of_lt hslot]
  · refine ⟨size - start + slot, by omega, ?_⟩
    have hturn : start + (size - start + slot) = slot + size := by omega
    rw [cell, hturn, Nat.add_mod_right, Nat.mod_eq_of_lt hslot]

variable {stop : ℕ → Bool} {steps found : ℕ}

theorem scan_eq_some (hslot : slot < size) :
    scan size stop steps slot = some found ↔
      ∃ offset < steps, cell size slot offset = found ∧ stop found = true ∧
        ∀ earlier < offset, stop (cell size slot earlier) = false := by
  induction steps generalizing slot with
  | zero => simp [scan]
  | succ steps ih =>
      have hnext : (slot + 1) % size < size := cell_lt hslot 1
      rw [scan]
      split
      · next hstop =>
          constructor
          · intro heq
            obtain rfl := Option.some.inj heq
            exact ⟨0, Nat.succ_pos _, cell_zero hslot, hstop,
              fun earlier h => absurd h (Nat.not_lt_zero _)⟩
          · rintro ⟨offset, -, hfound, -, hearlier⟩
            cases offset with
            | zero => rw [← hfound, cell_zero hslot]
            | succ offset =>
                have hfirst := hearlier 0 (Nat.succ_pos _)
                rw [cell_zero hslot, hstop] at hfirst
                cases hfirst
      · next hstop =>
          rw [Bool.not_eq_true] at hstop
          rw [ih hnext]
          constructor
          · rintro ⟨offset, hoffset, hfound, htrue, hearlier⟩
            refine ⟨offset + 1, Nat.succ_lt_succ hoffset, ?_, htrue, ?_⟩
            · rw [← cell_succ, hfound]
            · intro earlier hlt
              cases earlier with
              | zero => rw [cell_zero hslot, hstop]
              | succ earlier =>
                  rw [← cell_succ]
                  exact hearlier earlier (Nat.lt_of_succ_lt_succ hlt)
          · rintro ⟨offset, hoffset, hfound, htrue, hearlier⟩
            cases offset with
            | zero =>
                rw [cell_zero hslot] at hfound
                rw [← hfound, hstop] at htrue
                cases htrue
            | succ offset =>
                refine ⟨offset, Nat.lt_of_succ_lt_succ hoffset, ?_, htrue, ?_⟩
                · rw [cell_succ, hfound]
                · intro earlier hlt
                  rw [cell_succ]
                  exact hearlier (earlier + 1) (Nat.succ_lt_succ hlt)

theorem scan_eq_none (hslot : slot < size) :
    scan size stop steps slot = none ↔
      ∀ offset < steps, stop (cell size slot offset) = false := by
  induction steps generalizing slot with
  | zero => simp [scan]
  | succ steps ih =>
      have hnext : (slot + 1) % size < size := cell_lt hslot 1
      rw [scan]
      split
      · next hstop =>
          constructor
          · intro h
            cases h
          · intro hall
            have hfirst := hall 0 (Nat.succ_pos _)
            rw [cell_zero hslot, hstop] at hfirst
            cases hfirst
      · next hstop =>
          rw [Bool.not_eq_true] at hstop
          rw [ih hnext]
          constructor
          · intro hall offset hoffset
            cases offset with
            | zero => rw [cell_zero hslot, hstop]
            | succ offset =>
                rw [← cell_succ]
                exact hall offset (Nat.lt_of_succ_lt_succ hoffset)
          · intro hall offset hoffset
            rw [cell_succ]
            exact hall (offset + 1) (Nat.succ_lt_succ hoffset)

/-- A search of the whole table fails only if no slot stops it. -/
theorem scan_size_eq_none (hstart : start < size) :
    scan size stop size start = none ↔ ∀ slot < size, stop slot = false := by
  rw [scan_eq_none hstart]
  constructor
  · intro hall slot hslot
    obtain ⟨offset, hoffset, rfl⟩ := exists_cell hstart hslot
    exact hall offset hoffset
  · exact fun hall offset _ => hall _ (cell_lt hstart offset)

theorem scan_lt (hslot : slot < size)
    (hscan : scan size stop steps slot = some found) : found < size := by
  obtain ⟨offset, -, rfl, -, -⟩ := (scan_eq_some hslot).mp hscan
  exact cell_lt hslot offset

end Cells

/-! ## Tables -/

section Tables

variable {E K : Type*}

/-- An entry is in one of the slots. -/
def Stored (size : ℕ) (slots : ℕ → Option E) (entry : E) : Prop :=
  ∃ slot < size, slots slot = some entry

/-- A search for the key stops here. -/
def stops [DecidableEq K] (key : E → K) (slots : ℕ → Option E) (wanted : K)
    (slot : ℕ) : Bool :=
  match slots slot with
  | none => true
  | some entry => key entry = wanted

/-- Every entry is met by the search for its key, and no key is stored twice. -/
structure Probed (size : ℕ) (key : E → K) (home : K → ℕ)
    (slots : ℕ → Option E) : Prop where
  path : ∀ entry, ∀ offset < size,
    slots (cell size (home (key entry)) offset) = some entry →
      ∀ earlier < offset, slots (cell size (home (key entry)) earlier) ≠ none
  unique : ∀ left < size, ∀ right < size, ∀ first second,
    slots left = some first → slots right = some second →
      key first = key second → left = right

variable {size : ℕ} {key : E → K} {home : K → ℕ} {slots : ℕ → Option E}

theorem probed_empty : Probed size key home fun _ => none where
  path := by
    intro entry offset _ hentry
    cases hentry
  unique := by
    intro left _ right _ first second hfirst
    cases hfirst

section Search

variable [DecidableEq K] {wanted : K} {slot : ℕ}

theorem stops_of_none (hslot : slots slot = none) :
    stops key slots wanted slot = true := by
  rw [stops, hslot]

theorem stops_of_some {entry : E} (hslot : slots slot = some entry) :
    stops key slots wanted slot = decide (key entry = wanted) := by
  rw [stops, hslot]

/-- The search for a stored key ends at its entry. -/
theorem Probed.scan_of_stored (hprobed : Probed size key home slots)
    (hhome : home wanted < size) {entry : E} (hslot : slot < size)
    (hentry : slots slot = some entry) (hkey : key entry = wanted) :
    scan size (stops key slots wanted) size (home wanted) = some slot := by
  obtain ⟨offset, hoffset, hcell⟩ := exists_cell hhome hslot
  rw [scan_eq_some hhome]
  refine ⟨offset, hoffset, hcell, ?_, fun earlier hearlier => ?_⟩
  · rw [stops_of_some hentry, hkey, decide_eq_true_eq]
  · have hbusy := hprobed.path entry offset hoffset
      (by rw [hkey, hcell, hentry]) earlier hearlier
    rw [hkey] at hbusy
    obtain ⟨other, hother⟩ := Option.ne_none_iff_exists'.mp hbusy
    rw [stops_of_some hother, decide_eq_false_iff_not]
    intro hwanted
    -- The key would be stored twice.
    have heq := hprobed.unique _ (cell_lt hhome earlier) slot hslot other entry
      hother hentry (hwanted.trans hkey.symm)
    rw [← hcell] at heq
    have := cell_injective (lt_trans hearlier hoffset) hoffset heq
    omega

/-- The search for another key ends at the first empty slot behind its home. -/
theorem scan_of_absent (hhome : home wanted < size)
    (habsent : ∀ entry, Stored size slots entry → key entry ≠ wanted)
    (hscan : scan size (stops key slots wanted) size (home wanted) =
      some slot) :
    slots slot = none ∧ ∃ offset < size, cell size (home wanted) offset = slot ∧
      ∀ earlier < offset, slots (cell size (home wanted) earlier) ≠ none := by
  obtain ⟨offset, hoffset, hcell, hstop, hearlier⟩ :=
    (scan_eq_some hhome).mp hscan
  constructor
  · cases hslot : slots slot with
    | none => rfl
    | some entry =>
        rw [stops_of_some hslot, decide_eq_true_eq] at hstop
        exact absurd hstop
          (habsent entry ⟨slot, hcell ▸ cell_lt hhome offset, hslot⟩)
  · refine ⟨offset, hoffset, hcell, fun earlier hlt hnone => ?_⟩
    have hfalse := hearlier earlier hlt
    rw [stops_of_none hnone] at hfalse
    cases hfalse

/-- It finds no slot exactly if none is empty. -/
theorem scan_eq_none_of_absent (hhome : home wanted < size)
    (habsent : ∀ entry, Stored size slots entry → key entry ≠ wanted) :
    scan size (stops key slots wanted) size (home wanted) = none ↔
      ∀ slot < size, slots slot ≠ none := by
  rw [scan_size_eq_none hhome]
  refine forall₂_congr fun slot hslot => ?_
  cases hentry : slots slot with
  | none => simp [stops_of_none hentry]
  | some entry =>
      simp [stops_of_some hentry, habsent entry ⟨slot, hslot, hentry⟩]

end Search

/-! ## Insertion -/

section Insertion

variable {slot : ℕ} {entry : E}

theorem stored_update_some (hslot : slot < size) (hempty : slots slot = none)
    (other : E) :
    Stored size (Function.update slots slot (some entry)) other ↔
      other = entry ∨ Stored size slots other := by
  constructor
  · rintro ⟨place, hplace, hother⟩
    by_cases heq : place = slot
    · rw [heq, Function.update_self] at hother
      exact .inl (Option.some.inj hother).symm
    · rw [Function.update_of_ne heq] at hother
      exact .inr ⟨place, hplace, hother⟩
  · rintro (rfl | ⟨place, hplace, hother⟩)
    · exact ⟨slot, hslot, Function.update_self _ _ _⟩
    · refine ⟨place, hplace, ?_⟩
      have hne : place ≠ slot := by
        rintro rfl
        rw [hempty] at hother
        cases hother
      rw [Function.update_of_ne hne, hother]

/-- An entry may be put into the slot at which its search ends. -/
theorem Probed.insert (hprobed : Probed size key home slots)
    {offset : ℕ} (hoffset : offset < size)
    (hcell : cell size (home (key entry)) offset = slot)
    (hearlier : ∀ earlier < offset,
      slots (cell size (home (key entry)) earlier) ≠ none)
    (habsent : ∀ other, Stored size slots other → key other ≠ key entry) :
    Probed size key home (Function.update slots slot (some entry)) := by
  have hbusy : ∀ place, slots place ≠ none →
      Function.update slots slot (some entry) place ≠ none := by
    intro place hplace
    by_cases heq : place = slot
    · rw [heq, Function.update_self]
      exact Option.some_ne_none _
    · rwa [Function.update_of_ne heq]
  constructor
  · intro other place hplace hother earlier hlt
    by_cases heq : cell size (home (key other)) place = slot
    · rw [heq, Function.update_self] at hother
      obtain rfl := Option.some.inj hother
      obtain rfl := cell_injective hplace hoffset (heq.trans hcell.symm)
      exact hbusy _ (hearlier earlier hlt)
    · rw [Function.update_of_ne heq] at hother
      exact hbusy _ (hprobed.path other place hplace hother earlier hlt)
  · intro left hleft right hright first second hfirst hsecond hkey
    by_cases hl : left = slot <;> by_cases hr : right = slot
    · exact hl.trans hr.symm
    · rw [hl, Function.update_self] at hfirst
      rw [Function.update_of_ne hr] at hsecond
      obtain rfl := Option.some.inj hfirst
      exact absurd hkey.symm (habsent second ⟨right, hright, hsecond⟩)
    · rw [hr, Function.update_self] at hsecond
      rw [Function.update_of_ne hl] at hfirst
      obtain rfl := Option.some.inj hsecond
      exact absurd hkey (habsent first ⟨left, hleft, hfirst⟩)
    · rw [Function.update_of_ne hl] at hfirst
      rw [Function.update_of_ne hr] at hsecond
      exact hprobed.unique left hleft right hright first second hfirst hsecond
        hkey

end Insertion

/-! ## Removal -/

/-- The slot `hole` has been emptied, and the `swept` slots from it on have been
looked at: no entry there has its way barred by the hole. -/
structure Vacated (size : ℕ) (key : E → K) (home : K → ℕ)
    (slots : ℕ → Option E) (hole swept : ℕ) : Prop where
  hole_lt : hole < size
  empty : slots hole = none
  swept_pos : 0 < swept
  swept_le : swept ≤ size
  filled : ∀ behind < swept, 0 < behind → slots (cell size hole behind) ≠ none
  path : ∀ entry, ∀ offset < size,
    slots (cell size (home (key entry)) offset) = some entry →
      ∀ earlier < offset, cell size (home (key entry)) earlier ≠ hole →
        slots (cell size (home (key entry)) earlier) ≠ none
  settled : ∀ behind < swept, 0 < behind → ∀ entry, ∀ offset < size,
    slots (cell size (home (key entry)) offset) = some entry →
      cell size (home (key entry)) offset = cell size hole behind →
        ∀ earlier < offset, cell size (home (key entry)) earlier ≠ hole
  unique : ∀ left < size, ∀ right < size, ∀ first second,
    slots left = some first → slots right = some second →
      key first = key second → left = right

section Removal

variable {hole swept slot : ℕ} {entry : E}

/-- Emptying a slot of a well probed table. -/
theorem Probed.vacate (hprobed : Probed size key home slots)
    (hslot : slot < size) :
    Vacated size key home (Function.update slots slot none) slot 1 where
  hole_lt := hslot
  empty := Function.update_self _ _ _
  swept_pos := Nat.one_pos
  swept_le := Nat.one_le_of_lt hslot
  filled := fun behind hlt hpos => by omega
  path := by
    intro other offset hoffset hother earlier hlt hne
    have hplace : cell size (home (key other)) offset ≠ slot := by
      intro heq
      rw [heq, Function.update_self] at hother
      cases hother
    rw [Function.update_of_ne hplace] at hother
    rw [Function.update_of_ne hne]
    exact hprobed.path other offset hoffset hother earlier hlt
  settled := fun behind hlt hpos => by omega
  unique := by
    intro left hleft right hright first second hfirst hsecond hkey
    have hl : left ≠ slot := by
      rintro rfl
      rw [Function.update_self] at hfirst
      cases hfirst
    have hr : right ≠ slot := by
      rintro rfl
      rw [Function.update_self] at hsecond
      cases hsecond
    rw [Function.update_of_ne hl] at hfirst
    rw [Function.update_of_ne hr] at hsecond
    exact hprobed.unique left hleft right hright first second hfirst hsecond
      hkey

/-- Emptying a slot removes its entry and no other. -/
theorem stored_update_none (hprobed : Probed size key home slots)
    (hslot : slot < size) (hentry : slots slot = some entry) (other : E) :
    Stored size (Function.update slots slot none) other ↔
      Stored size slots other ∧ key other ≠ key entry := by
  constructor
  · rintro ⟨place, hplace, hother⟩
    have hne : place ≠ slot := by
      rintro rfl
      rw [Function.update_self] at hother
      cases hother
    rw [Function.update_of_ne hne] at hother
    exact ⟨⟨place, hplace, hother⟩, fun hkey => hne
      (hprobed.unique place hplace slot hslot other entry hother hentry hkey)⟩
  · rintro ⟨⟨place, hplace, hother⟩, hkey⟩
    refine ⟨place, hplace, ?_⟩
    have hne : place ≠ slot := by
      rintro rfl
      exact hkey (congrArg key (Option.some.inj (hother.symm.trans hentry)))
    rw [Function.update_of_ne hne, hother]

/-- The sweep ends at the first empty slot, and the table is well probed. -/
theorem Vacated.finish (hvacated : Vacated size key home slots hole swept)
    (hempty : slots (cell size hole swept) = none) :
    Probed size key home slots where
  path := by
    intro entry offset hoffset hentry earlier hlt
    by_cases hbarred : cell size (home (key entry)) earlier = hole
    · exfalso
      -- The entry is `offset - earlier` slots behind the hole, and the end of
      -- the sweep is either farther away or on its way.
      have hbehind : cell size hole (offset - earlier) =
          cell size (home (key entry)) offset := by
        rw [← hbarred, cell_cell, Nat.add_sub_cancel' hlt.le]
      rcases Nat.lt_trichotomy (offset - earlier) swept with h | h | h
      · exact hvacated.settled _ h (by omega) entry offset hoffset hentry
          hbehind.symm earlier hlt hbarred
      · rw [← h, hbehind, hentry] at hempty
        cases hempty
      · have hway : cell size (home (key entry)) (earlier + swept) =
            cell size hole swept := by
          rw [← hbarred, cell_cell]
        have hne : cell size hole swept ≠ hole := by
          intro heq
          have hzero := @cell_injective _ hole _ _
            (lt_of_lt_of_le h (by omega)) (Nat.zero_lt_of_lt hvacated.hole_lt)
            (heq.trans (cell_zero hvacated.hole_lt).symm)
          exact absurd hzero hvacated.swept_pos.ne'
        refine hvacated.path entry offset hoffset hentry (earlier + swept)
          (by omega) (by rw [hway]; exact hne) ?_
        rw [hway, hempty]
    · exact hvacated.path entry offset hoffset hentry earlier hlt hbarred
  unique := hvacated.unique

/-- A whole turn ends the sweep. -/
theorem Vacated.swept_lt (hvacated : Vacated size key home slots hole swept)
    (hbusy : slots (cell size hole swept) ≠ none) : swept < size := by
  refine lt_of_le_of_ne hvacated.swept_le fun heq => hbusy ?_
  rw [heq, cell_size hvacated.hole_lt, hvacated.empty]

/-- An entry that the hole does not bar stays where it is. -/
theorem Vacated.stay (hvacated : Vacated size key home slots hole swept)
    {offset : ℕ} (hoffset : offset < size)
    (hcell : cell size (home (key entry)) offset = cell size hole swept)
    (hentry : slots (cell size hole swept) = some entry)
    (hclear : ∀ earlier < offset,
      cell size (home (key entry)) earlier ≠ hole) :
    Vacated size key home slots hole (swept + 1) where
  hole_lt := hvacated.hole_lt
  empty := hvacated.empty
  swept_pos := Nat.succ_pos _
  swept_le := hvacated.swept_lt (by rw [hentry]; exact Option.some_ne_none _)
  filled := by
    intro behind hlt hpos
    rcases Nat.lt_succ_iff_lt_or_eq.mp hlt with h | rfl
    · exact hvacated.filled behind h hpos
    · rw [hentry]
      exact Option.some_ne_none _
  path := hvacated.path
  settled := by
    intro behind hlt hpos other place hplace hother hbehind
    rcases Nat.lt_succ_iff_lt_or_eq.mp hlt with h | rfl
    · exact hvacated.settled behind h hpos other place hplace hother hbehind
    · rw [hbehind, hentry] at hother
      obtain rfl := Option.some.inj hother
      obtain rfl := cell_injective hplace hoffset (hbehind.trans hcell.symm)
      exact hclear
  unique := hvacated.unique

/-- The table after an entry has been moved into the hole. -/
def move (slots : ℕ → Option E) (source hole : ℕ) : ℕ → Option E :=
  Function.update (Function.update slots source none) hole (slots source)

theorem move_hole (source : ℕ) : move slots source hole hole = slots source :=
  Function.update_self _ _ _

theorem move_source {source : ℕ} (hne : source ≠ hole) :
    move slots source hole source = none := by
  rw [move, Function.update_of_ne hne, Function.update_self]

theorem move_of_ne {source place : ℕ} (hsource : place ≠ source)
    (hhole : place ≠ hole) : move slots source hole place = slots place := by
  rw [move, Function.update_of_ne hhole, Function.update_of_ne hsource]

/-- A move keeps the set of entries. -/
theorem stored_move {source : ℕ} (hhole : hole < size) (hsource : source < size)
    (hempty : slots hole = none) (other : E) :
    Stored size (move slots source hole) other ↔ Stored size slots other := by
  constructor
  · rintro ⟨place, hplace, hother⟩
    by_cases h : place = hole
    · rw [h, move_hole] at hother
      exact ⟨source, hsource, hother⟩
    · by_cases hs : place = source
      · rw [hs, move_source (hs ▸ h)] at hother
        cases hother
      · rw [move_of_ne hs h] at hother
        exact ⟨place, hplace, hother⟩
  · rintro ⟨place, hplace, hother⟩
    have h : place ≠ hole := by
      rintro rfl
      rw [hempty] at hother
      cases hother
    by_cases hs : place = source
    · exact ⟨hole, hhole, by rw [move_hole, ← hs, hother]⟩
    · exact ⟨place, hplace, by rw [move_of_ne hs h, hother]⟩

/-- An entry that the hole bars moves into it and leaves the new hole. -/
theorem Vacated.moved (hvacated : Vacated size key home slots hole swept)
    {offset earlier : ℕ} (hoffset : offset < size) (hlt : earlier < offset)
    (hcell : cell size (home (key entry)) offset = cell size hole swept)
    (hentry : slots (cell size hole swept) = some entry)
    (hbarred : cell size (home (key entry)) earlier = hole) :
    Vacated size key home (move slots (cell size hole swept) hole)
      (cell size hole swept) 1 := by
  have hne : cell size hole swept ≠ hole := by
    intro heq
    rw [heq, hvacated.empty] at hentry
    cases hentry
  have hbusy : ∀ place, place ≠ cell size hole swept → slots place ≠ none →
      move slots (cell size hole swept) hole place ≠ none := by
    intro place hplace hslot
    by_cases h : place = hole
    · rw [h, move_hole, hentry]
      exact Option.some_ne_none _
    · rwa [move_of_ne hplace h]
  constructor
  · exact cell_lt hvacated.hole_lt swept
  · exact move_source hne
  · exact Nat.one_pos
  · exact Nat.one_le_of_lt hoffset
  · exact fun behind hlt hpos => by omega
  · intro other place hplace hother before hbefore hway
    by_cases h : cell size (home (key other)) place = hole
    · -- The moved entry: its way is the first part of its old one.
      rw [h, move_hole, hentry] at hother
      obtain rfl := Option.some.inj hother
      obtain rfl := cell_injective hplace (hlt.trans hoffset)
        (h.trans hbarred.symm)
      refine hbusy _ hway (hvacated.path entry offset hoffset
        (by rw [hcell, hentry]) before (hbefore.trans hlt) fun heq => ?_)
      have := cell_injective (hbefore.trans hplace) hplace
        (heq.trans hbarred.symm)
      omega
    · have hs : cell size (home (key other)) place ≠ cell size hole swept := by
        intro heq
        rw [heq, move_source hne] at hother
        cases hother
      rw [move_of_ne hs h] at hother
      by_cases hhole : cell size (home (key other)) before = hole
      · rw [hhole, move_hole, hentry]
        exact Option.some_ne_none _
      · exact hbusy _ hway
          (hvacated.path other place hplace hother before hbefore hhole)
  · exact fun behind hlt hpos => by omega
  · -- Both tables hold the same entries at places that correspond.
    have hback : ∀ place, ∀ other,
        move slots (cell size hole swept) hole place = some other →
          place ≠ cell size hole swept ∧
            slots (if place = hole then cell size hole swept else place) =
              some other := by
      intro place other hother
      have hs : place ≠ cell size hole swept := by
        rintro rfl
        rw [move_source hne] at hother
        cases hother
      refine ⟨hs, ?_⟩
      split
      · next h => rwa [h, move_hole] at hother
      · next h => rwa [move_of_ne hs h] at hother
    intro left hleft right hright first second hfirst hsecond hkey
    obtain ⟨hl, hfirst⟩ := hback left first hfirst
    obtain ⟨hr, hsecond⟩ := hback right second hsecond
    have hcellLt := cell_lt hvacated.hole_lt swept
    have heq := hvacated.unique _ (by split <;> assumption) _
      (by split <;> assumption) first second hfirst hsecond hkey
    split at heq <;> split at heq
    · next h h' => exact h.trans h'.symm
    · exact absurd heq.symm hr
    · exact absurd heq hl
    · exact heq

/-- With its own slot emptied, an entry that nothing bars finds that slot. -/
theorem Vacated.scan_clear (hvacated : Vacated size key home slots hole swept)
    (hhome : home (key entry) < size) {offset : ℕ} (hoffset : offset < size)
    (hcell : cell size (home (key entry)) offset = cell size hole swept)
    (hentry : slots (cell size hole swept) = some entry)
    (hclear : ∀ earlier < offset,
      cell size (home (key entry)) earlier ≠ hole) :
    scan size (fun slot =>
        (Function.update slots (cell size hole swept) none slot).isNone)
      size (home (key entry)) = some (cell size hole swept) := by
  rw [scan_eq_some hhome]
  refine ⟨offset, hoffset, hcell, by rw [Function.update_self]; rfl, ?_⟩
  intro earlier hearlier
  have hne : cell size (home (key entry)) earlier ≠ cell size hole swept := by
    intro heq
    have := cell_injective (hearlier.trans hoffset) hoffset
      (heq.trans hcell.symm)
    omega
  rw [Function.update_of_ne hne, Option.isNone_eq_false_iff,
    Option.isSome_iff_ne_none]
  exact hvacated.path entry offset hoffset (by rw [hcell, hentry]) earlier
    hearlier (hclear earlier hearlier)

/-- An entry that the hole bars finds the hole. -/
theorem Vacated.scan_barred (hvacated : Vacated size key home slots hole swept)
    (hhome : home (key entry) < size) {offset earlier : ℕ}
    (hoffset : offset < size) (hlt : earlier < offset)
    (hcell : cell size (home (key entry)) offset = cell size hole swept)
    (hentry : slots (cell size hole swept) = some entry)
    (hbarred : cell size (home (key entry)) earlier = hole) :
    scan size (fun slot =>
        (Function.update slots (cell size hole swept) none slot).isNone)
      size (home (key entry)) = some hole := by
  rw [scan_eq_some hhome]
  have hapart : ∀ before < offset,
      cell size (home (key entry)) before ≠ cell size hole swept := by
    intro before hbefore heq
    have := cell_injective (hbefore.trans hoffset) hoffset
      (heq.trans hcell.symm)
    omega
  refine ⟨earlier, hlt.trans hoffset, hbarred, ?_, fun before hbefore => ?_⟩
  · rw [Function.update_of_ne (hbarred ▸ hapart earlier hlt), hvacated.empty]
    rfl
  · rw [Function.update_of_ne (hapart before (hbefore.trans hlt)),
      Option.isNone_eq_false_iff, Option.isSome_iff_ne_none]
    refine hvacated.path entry offset hoffset (by rw [hcell, hentry]) before
      (hbefore.trans hlt) fun heq => ?_
    have := cell_injective (hbefore.trans (hlt.trans hoffset))
      (hlt.trans hoffset) (heq.trans hbarred.symm)
    omega

end Removal

/-! ## The distances from home -/

section Distances

/-- How far the entry of a slot is from its home. -/
def distance (size : ℕ) (key : E → K) (home : K → ℕ) (slots : ℕ → Option E)
    (slot : ℕ) : ℕ :=
  match slots slot with
  | none => 0
  | some entry => (slot + size - home (key entry)) % size

/-- The sum of all distances from home. -/
def distances (size : ℕ) (key : E → K) (home : K → ℕ) (slots : ℕ → Option E) :
    ℕ :=
  ∑ slot ∈ Finset.range size, distance size key home slots slot

variable {hole swept : ℕ} {entry : E}

theorem distance_of_cell {slot offset : ℕ}
    (hhome : home (key entry) < size) (hoffset : offset < size)
    (hcell : cell size (home (key entry)) offset = slot)
    (hentry : slots slot = some entry) :
    distance size key home slots slot = offset := by
  have hslot : slot < size := hcell ▸ cell_lt hhome offset
  rw [distance, hentry]
  change (slot + size - home (key entry)) % size = offset
  refine @cell_injective _ (home (key entry)) _ _
    (Nat.mod_lt _ (Nat.zero_lt_of_lt hslot)) hoffset ?_
  rw [hcell, cell, Nat.add_mod_mod,
    Nat.add_sub_cancel' (hhome.le.trans (Nat.le_add_left _ _)),
    Nat.add_mod_right, Nat.mod_eq_of_lt hslot]

/-- A bound that does not depend on the entries. -/
theorem distances_le (hsize : 0 < size) :
    distances size key home slots ≤ size * (size - 1) := by
  have hone : ∀ slot ∈ Finset.range size,
      distance size key home slots slot ≤ size - 1 := by
    intro slot _
    rw [distance]
    split
    · exact Nat.zero_le _
    · exact Nat.le_sub_one_of_lt (Nat.mod_lt _ hsize)
  calc distances size key home slots
      ≤ (Finset.range size).card • (size - 1) :=
        Finset.sum_le_card_nsmul _ _ _ hone
    _ = size * (size - 1) := by rw [Finset.card_range, smul_eq_mul]

/-- A move into the hole brings an entry nearer to its home. -/
theorem Vacated.distances_lt (hvacated : Vacated size key home slots hole swept)
    (hhome : home (key entry) < size) {offset earlier : ℕ}
    (hoffset : offset < size) (hlt : earlier < offset)
    (hcell : cell size (home (key entry)) offset = cell size hole swept)
    (hentry : slots (cell size hole swept) = some entry)
    (hbarred : cell size (home (key entry)) earlier = hole) :
    distances size key home (move slots (cell size hole swept) hole) <
      distances size key home slots := by
  have hne : cell size hole swept ≠ hole := by
    intro heq
    rw [heq, hvacated.empty] at hentry
    cases hentry
  have hsource := cell_lt hvacated.hole_lt swept
  have hnew : distance size key home (move slots (cell size hole swept) hole) =
      Function.update (Function.update (distance size key home slots)
        (cell size hole swept) 0) hole earlier := by
    funext place
    by_cases h : place = hole
    · rw [h, Function.update_self]
      exact distance_of_cell hhome (hlt.trans hoffset) hbarred
        (by rw [move_hole, hentry])
    · rw [Function.update_of_ne h]
      by_cases hs : place = cell size hole swept
      · rw [hs, Function.update_self, distance, move_source hne]
      · rw [Function.update_of_ne hs, distance, distance, move_of_ne hs h]
  have hbefore : distance size key home slots (cell size hole swept) = offset :=
    distance_of_cell hhome hoffset hcell hentry
  have hhole : distance size key home slots hole = 0 := by
    rw [distance, hvacated.empty]
  have hhole_mem : hole ∈ Finset.range size :=
    Finset.mem_range.mpr hvacated.hole_lt
  have hsource_mem : cell size hole swept ∈ (Finset.range size).erase hole :=
    Finset.mem_erase.mpr ⟨hne, Finset.mem_range.mpr hsource⟩
  rw [distances, distances, ← Finset.add_sum_erase _ _ hhole_mem,
    ← Finset.add_sum_erase _ _ hsource_mem,
    ← Finset.add_sum_erase (Finset.range size) _ hhole_mem,
    ← Finset.add_sum_erase ((Finset.range size).erase hole)
      (distance size key home slots) hsource_mem]
  have hrest : ∀ place ∈ ((Finset.range size).erase hole).erase
      (cell size hole swept),
      distance size key home (move slots (cell size hole swept) hole) place =
        distance size key home slots place := by
    intro place hplace
    rw [Finset.mem_erase, Finset.mem_erase] at hplace
    rw [hnew, Function.update_of_ne hplace.2.1, Function.update_of_ne hplace.1]
  rw [Finset.sum_congr rfl hrest, hnew, Function.update_self,
    Function.update_of_ne hne, Function.update_self, hbefore, hhole, zero_add,
    zero_add]
  exact Nat.add_lt_add_right hlt _

end Distances

end Tables

end TbjitAlloc.Probing
