import TbjitAlloc.Common
import TbjitAlloc.Core.Probing

/-!
# The shadow validator

The debug build records every chunk a routine serves in an open-addressing table
keyed by pointer, and erases it when the chunk is freed.  Both calls run with
the table's mutex held, so each is one operation.  The hash is arbitrary: all
that is used is that it is a slot of the table.
-/

namespace TbjitAlloc.Shadow

open TbjitAlloc.Probing

/-- `TABLE_SIZE`. -/
def tableSize : ℕ := 2 ^ 17

theorem tableSize_pos : 0 < tableSize := by
  unfold tableSize
  exact Nat.two_pow_pos 17

/-- `hash_ptr`. -/
def hashPtr (ptr : ℕ) : ℕ :=
  let v := ptr ^^^ (ptr >>> 21)
  let v := v * 0xbf58476d1ce4e5b9 % 2 ^ 64
  (v ^^^ (v >>> 27)) % tableSize

theorem hashPtr_lt (ptr : ℕ) : hashPtr ptr < tableSize :=
  Nat.mod_lt _ tableSize_pos

structure Entry where
  ptr : ℕ
  size : ℕ
  allocId : CallSiteID
  allocTid : ℕ
  deriving DecidableEq, Repr

/-- `g_table`.  A slot whose pointer is null is `none`: the rest of such a slot is
never read. -/
abbrev Table := ℕ → Option Entry

/-- How a call of `validate_alloc` ends.  Only `unmanaged` and `recorded`
return; the others abort the process. -/
inductive AllocOutcome
  | nullReturned
  | unmanaged
  | misaligned
  | duplicate (existing : Entry)
  | tableFull
  | recorded (table : Table)

section Code

variable (hash : ℕ → ℕ)

/-- The slot where the scan for a pointer ends: its entry, or an empty slot. -/
def probe (table : Table) (ptr : ℕ) : Option ℕ :=
  scan tableSize (stops Entry.ptr table ptr) tableSize (hash ptr)

/-- `alignof(max_align_t)`. -/
def maxAlign : ℕ := 16

def validateAlloc (managed : Bool) (table : Table) (entry : Entry) :
    AllocOutcome :=
  if entry.ptr = 0 then .nullReturned
  else if ¬managed then .unmanaged
  else if entry.ptr % maxAlign ≠ 0 then .misaligned
  else
    match probe hash table entry.ptr with
    | none => .tableFull
    | some slot =>
        match table slot with
        | some existing => .duplicate existing
        | none => .recorded (Function.update table slot (some entry))

/-- The loop of `validate_free` behind the emptied slot: take each entry out
and put it into the first empty slot from its home on.  The inner scan does not
end if there is none. -/
def reinsertCluster : ℕ → Table → ℕ → Option Table
  | 0, _, _ => none
  | fuel + 1, table, slot =>
      match table slot with
      | none => some table
      | some entry =>
          let vacated := Function.update table slot none
          (scan tableSize (fun place => (vacated place).isNone) tableSize
            (hash entry.ptr)).bind fun place =>
              reinsertCluster fuel (Function.update vacated place (some entry))
                ((slot + 1) % tableSize)

/-- `validate_free`; `none` means that its loop has not ended after `fuel`
rounds. -/
def validateFree (fuel : ℕ) (table : Table) (ptr : ℕ) : Option Table :=
  if ptr = 0 then some table
  else
    match probe hash table ptr with
    | none => some table
    | some slot =>
        match table slot with
        | none => some table
        | some _ =>
            reinsertCluster hash fuel (Function.update table slot none)
              ((slot + 1) % tableSize)

/-! ## Histories -/

/-- A call on a chunk of a segment, or a free of any pointer. -/
inductive Call
  | alloc (entry : Entry)
  | free (ptr : ℕ)
  deriving DecidableEq, Repr

/-- Routines serve aligned memory. -/
def Call.Aligned : Call → Prop
  | .alloc entry => entry.ptr ≠ 0 ∧ entry.ptr % maxAlign = 0
  | .free _ => True

/-- One call; `none` when it does not return. -/
def step (fuel : ℕ) (table : Table) : Call → Option Table
  | .alloc entry =>
      match validateAlloc hash true table entry with
      | .recorded next => some next
      | _ => none
  | .free ptr => validateFree hash fuel table ptr

/-- The calls of a process that has not aborted. -/
def history (fuel : ℕ) (table : Table) (calls : List Call) : Option Table :=
  calls.foldlM (step hash fuel) table

/-- The entry a search finds. -/
def lookup (table : Table) (ptr : ℕ) : Option Entry :=
  (probe hash table ptr).bind table

end Code

/-! ## The set of live pointers -/

/-- The set after one call. -/
def record (current : ℕ → Option Entry) : Call → ℕ → Option Entry
  | .alloc entry => Function.update current entry.ptr (some entry)
  | .free ptr => Function.update current ptr none

/-- The last allocation of every pointer that has not been freed since. -/
def live (calls : List Call) : ℕ → Option Entry :=
  calls.foldl record fun _ => none

/-- The table holds exactly these entries, and every search finds its own. -/
structure Represents (hash : ℕ → ℕ) (table : Table)
    (current : ℕ → Option Entry) : Prop where
  probed : Probed tableSize Entry.ptr hash table
  stored : ∀ entry, Stored tableSize table entry ↔
    current entry.ptr = some entry
  keyed : ∀ ptr entry, current ptr = some entry → entry.ptr = ptr
  nonnull : current 0 = none

section Proofs

variable {hash : ℕ → ℕ} (hhash : ∀ ptr, hash ptr < tableSize)
variable {table : Table} {current : ℕ → Option Entry}

theorem represents_empty : Represents hash (fun _ => none) fun _ => none where
  probed := probed_empty
  stored := by
    intro entry
    constructor
    · rintro ⟨slot, -, hslot⟩
      cases hslot
    · intro h
      cases h
  keyed := by
    intro ptr entry h
    cases h
  nonnull := rfl

/-- No entry of a pointer that is not live. -/
theorem Represents.absent (hrep : Represents hash table current) {ptr : ℕ}
    (hnone : current ptr = none) (entry : Entry)
    (hstored : Stored tableSize table entry) : entry.ptr ≠ ptr := by
  rintro rfl
  rw [(hrep.stored entry).mp hstored] at hnone
  cases hnone

/-- The number of rounds does not depend on the entries. -/
theorem rounds_lt (table : Table) :
    distances tableSize Entry.ptr hash table * tableSize + (tableSize - 1) <
      tableSize ^ 3 := by
  have hpos := tableSize_pos
  have hsum : distances tableSize Entry.ptr hash table ≤
      tableSize * (tableSize - 1) := distances_le hpos
  calc distances tableSize Entry.ptr hash table * tableSize + (tableSize - 1)
      < distances tableSize Entry.ptr hash table * tableSize + tableSize := by
        omega
    _ = (distances tableSize Entry.ptr hash table + 1) * tableSize :=
        (Nat.succ_mul _ _).symm
    _ ≤ (tableSize * (tableSize - 1) + tableSize) * tableSize :=
        Nat.mul_le_mul_right _ (Nat.add_le_add hsum hpos)
    _ = tableSize ^ 3 := by
        rw [← Nat.mul_succ, Nat.succ_eq_add_one, Nat.sub_add_cancel hpos]
        ring

include hhash

theorem Represents.probe_of_live (hrep : Represents hash table current)
    {ptr : ℕ} {entry : Entry} (hlive : current ptr = some entry) :
    ∃ slot < tableSize, probe hash table ptr = some slot ∧
      table slot = some entry := by
  have hptr := hrep.keyed ptr entry hlive
  obtain ⟨slot, hslot, hentry⟩ := (hrep.stored entry).mpr (hptr ▸ hlive)
  exact ⟨slot, hslot, hrep.probed.scan_of_stored (hhash ptr) hslot hentry hptr,
    hentry⟩

/-- Where the scan for a pointer that is not live ends. -/
theorem Represents.probe_of_dead (hrep : Represents hash table current)
    {ptr : ℕ} (hnone : current ptr = none) :
    (probe hash table ptr = none ∧ ∀ slot < tableSize, table slot ≠ none) ∨
      ∃ slot, probe hash table ptr = some slot ∧ table slot = none ∧
        ∃ offset < tableSize, cell tableSize (hash ptr) offset = slot ∧
          ∀ earlier < offset, table (cell tableSize (hash ptr) earlier) ≠ none
    := by
  cases hprobe : probe hash table ptr with
  | none =>
      exact .inl ⟨rfl, (scan_eq_none_of_absent (hhash ptr)
        (hrep.absent hnone)).mp hprobe⟩
  | some slot =>
      exact .inr ⟨slot, rfl,
        scan_of_absent (hhash ptr) (hrep.absent hnone) hprobe⟩

theorem Represents.lookup_eq (hrep : Represents hash table current) (ptr : ℕ) :
    lookup hash table ptr = current ptr := by
  rw [lookup]
  cases hlive : current ptr with
  | some entry =>
      obtain ⟨slot, -, hprobe, hentry⟩ := hrep.probe_of_live hhash hlive
      rw [hprobe, Option.bind_some, hentry]
  | none =>
      rcases hrep.probe_of_dead hhash hlive with ⟨hprobe, -⟩ |
        ⟨slot, hprobe, hempty, -⟩
      · rw [hprobe, Option.bind_none]
      · rw [hprobe, Option.bind_some, hempty]

/-! ## Recording -/

/-- What `validate_alloc` answers on an aligned chunk of a segment. -/
theorem Represents.validateAlloc_cases (hrep : Represents hash table current)
    {entry : Entry} (hptr : entry.ptr ≠ 0)
    (halign : entry.ptr % maxAlign = 0) :
    (∃ existing, current entry.ptr = some existing ∧
        validateAlloc hash true table entry = .duplicate existing) ∨
      (current entry.ptr = none ∧ (∀ slot < tableSize, table slot ≠ none) ∧
        validateAlloc hash true table entry = .tableFull) ∨
      ∃ next, current entry.ptr = none ∧
        (∃ slot < tableSize, table slot = none) ∧
        validateAlloc hash true table entry = .recorded next ∧
        Represents hash next
          (Function.update current entry.ptr (some entry)) := by
  simp only [validateAlloc, if_neg hptr, not_true, if_false, halign,
    ne_eq]
  cases hlive : current entry.ptr with
  | some existing =>
      obtain ⟨slot, -, hprobe, hentry⟩ := hrep.probe_of_live hhash hlive
      exact .inl ⟨existing, rfl, by simp only [hprobe, hentry]⟩
  | none =>
      rcases hrep.probe_of_dead hhash hlive with ⟨hprobe, hfull⟩ |
        ⟨slot, hprobe, hempty, offset, hoffset, hcell, hearlier⟩
      · exact .inr (.inl ⟨rfl, hfull, by simp only [hprobe]⟩)
      · have hslot : slot < tableSize := hcell ▸ cell_lt (hhash _) offset
        refine .inr (.inr ⟨Function.update table slot (some entry), rfl,
          ⟨slot, hslot, hempty⟩, by simp only [hprobe, hempty], ?_,
          fun other => ?_, fun ptr other hother => ?_, ?_⟩)
        · exact hrep.probed.insert hoffset hcell hearlier (hrep.absent hlive)
        · rw [stored_update_some hslot hempty, hrep.stored]
          by_cases hkey : other.ptr = entry.ptr
          · rw [hkey, Function.update_self, hlive, Option.some.injEq]
            exact ⟨fun h => h.elim Eq.symm (by rintro ⟨⟩), fun h => .inl h.symm⟩
          · rw [Function.update_of_ne hkey]
            exact ⟨fun h => h.elim (fun heq => absurd (heq ▸ rfl) hkey) id,
              .inr⟩
        · by_cases hkey : ptr = entry.ptr
          · rw [hkey, Function.update_self, Option.some.injEq] at hother
            rw [hkey, hother]
          · rw [Function.update_of_ne hkey] at hother
            exact hrep.keyed ptr other hother
        · rw [Function.update_of_ne hptr.symm, hrep.nonnull]

/-! ## Erasing -/

/-- The loop ends in a well probed table with the same entries.  Each round
either passes one slot more or moves an entry nearer to its home. -/
theorem reinsertCluster_spec {fuel hole swept : ℕ}
    (hvacated : Vacated tableSize Entry.ptr hash table hole swept)
    (hfuel : distances tableSize Entry.ptr hash table * tableSize +
      (tableSize - swept) < fuel) :
    ∃ next, reinsertCluster hash fuel table (cell tableSize hole swept) =
        some next ∧
      Probed tableSize Entry.ptr hash next ∧
      ∀ entry, Stored tableSize next entry ↔ Stored tableSize table entry := by
  induction fuel generalizing table hole swept with
  | zero => exact absurd hfuel (Nat.not_lt_zero _)
  | succ fuel ih =>
      have hlt := cell_lt hvacated.hole_lt swept
      rw [reinsertCluster]
      cases hentry : table (cell tableSize hole swept) with
      | none =>
          exact ⟨table, rfl, hvacated.finish hentry, fun _ => Iff.rfl⟩
      | some entry =>
          obtain ⟨offset, hoffset, hcell⟩ := exists_cell (hhash entry.ptr) hlt
          have hswept := hvacated.swept_lt
            (by rw [hentry]; exact Option.some_ne_none _)
          dsimp only
          by_cases hclear : ∀ earlier < offset,
              cell tableSize (hash entry.ptr) earlier ≠ hole
          · -- The entry returns to its own slot.
            have hsame : Function.update (Function.update table
                (cell tableSize hole swept) none)
                (cell tableSize hole swept) (some entry) = table := by
              rw [Function.update_idem, ← hentry, Function.update_eq_self]
            rw [hvacated.scan_clear (hhash _) hoffset hcell hentry hclear,
              Option.bind_some, hsame]
            have hnext : (cell tableSize hole swept + 1) % tableSize =
                cell tableSize hole (swept + 1) := cell_cell swept 1
            rw [hnext]
            exact ih (hvacated.stay hoffset hcell hentry hclear) (by omega)
          · -- The entry fills the hole and leaves a new one.
            push Not at hclear
            obtain ⟨earlier, hearlier, hbarred⟩ := hclear
            have hmove : Function.update (Function.update table
                (cell tableSize hole swept) none) hole (some entry) =
                move table (cell tableSize hole swept) hole := by
              rw [move, hentry]
            rw [hvacated.scan_barred (hhash _) hoffset hearlier hcell hentry
              hbarred, Option.bind_some, hmove]
            have hnearer := hvacated.distances_lt (hhash _) hoffset hearlier
              hcell hentry hbarred
            have hbudget := Nat.mul_le_mul_right tableSize
              (Nat.succ_le_of_lt hnearer)
            rw [Nat.succ_mul] at hbudget
            obtain ⟨next, hnext, hprobed, hstored⟩ := ih
              (hvacated.moved hoffset hearlier hcell hentry hbarred)
              (by omega)
            exact ⟨next, hnext, hprobed, fun other => (hstored other).trans
              (stored_move hvacated.hole_lt hlt hvacated.empty other)⟩

theorem Represents.validateFree (hrep : Represents hash table current)
    {fuel : ℕ} (hfuel : tableSize ^ 3 ≤ fuel) (ptr : ℕ) :
    ∃ next, validateFree hash fuel table ptr = some next ∧
      Represents hash next (Function.update current ptr none) := by
  have hsame : current ptr = none → Function.update current ptr none = current :=
    fun hnone => by rw [← hnone, Function.update_eq_self]
  rw [Shadow.validateFree]
  split
  · next hnull =>
      rw [hsame (by rw [hnull, hrep.nonnull])]
      exact ⟨table, rfl, hrep⟩
  cases hlive : current ptr with
  | none =>
      rw [hsame hlive]
      rcases hrep.probe_of_dead hhash hlive with ⟨hprobe, -⟩ |
        ⟨slot, hprobe, hempty, -⟩
      · exact ⟨table, by simp only [hprobe], hrep⟩
      · exact ⟨table, by simp only [hprobe, hempty], hrep⟩
  | some entry =>
      obtain ⟨slot, hslot, hprobe, hentry⟩ := hrep.probe_of_live hhash hlive
      have hptr := hrep.keyed ptr entry hlive
      obtain ⟨next, hnext, hprobed, hstored⟩ := reinsertCluster_spec hhash
        (hrep.probed.vacate hslot) ((rounds_lt _).trans_le hfuel)
      refine ⟨next, by simp only [hprobe, hentry]; exact hnext, hprobed,
        fun other => ?_, fun wanted other hother => ?_, ?_⟩
      · rw [hstored, stored_update_none hrep.probed hslot hentry, hrep.stored,
          hptr]
        by_cases hkey : other.ptr = ptr
        · rw [hkey, Function.update_self]
          exact ⟨fun h => absurd rfl h.2, by rintro ⟨⟩⟩
        · rw [Function.update_of_ne hkey]
          exact ⟨And.left, fun h => ⟨h, hkey⟩⟩
      · by_cases hkey : wanted = ptr
        · rw [hkey, Function.update_self] at hother
          cases hother
        · rw [Function.update_of_ne hkey] at hother
          exact hrep.keyed wanted other hother
      · by_cases hkey : 0 = ptr
        · rw [hkey, Function.update_self]
        · rw [Function.update_of_ne hkey, hrep.nonnull]

/-! ## Histories -/

/-- One call that returns keeps the table exact. -/
theorem Represents.step (hrep : Represents hash table current) {fuel : ℕ}
    (hfuel : tableSize ^ 3 ≤ fuel) {call : Call} (haligned : call.Aligned)
    {next : Table} (hstep : step hash fuel table call = some next) :
    Represents hash next (record current call) := by
  cases call with
  | alloc entry =>
      rcases hrep.validateAlloc_cases hhash haligned.1 haligned.2 with
        ⟨existing, -, houtcome⟩ | ⟨-, -, houtcome⟩ |
        ⟨recorded, -, -, houtcome, hnext⟩
      · simp [Shadow.step, houtcome] at hstep
      · simp [Shadow.step, houtcome] at hstep
      · simp only [Shadow.step, houtcome, Option.some.injEq] at hstep
        exact hstep ▸ hnext
  | free ptr =>
      obtain ⟨freed, hfreed, hnext⟩ := hrep.validateFree hhash hfuel ptr
      rw [Shadow.step, hfreed, Option.some.injEq] at hstep
      exact hstep ▸ hnext

theorem Represents.history (hrep : Represents hash table current) {fuel : ℕ}
    (hfuel : tableSize ^ 3 ≤ fuel) {calls : List Call}
    (haligned : ∀ call ∈ calls, call.Aligned) {next : Table}
    (hhistory : history hash fuel table calls = some next) :
    Represents hash next (calls.foldl record current) := by
  induction calls generalizing table current with
  | nil =>
      obtain rfl := Option.some.inj hhistory
      exact hrep
  | cons call calls ih =>
      obtain ⟨middle, hmiddle, hrest⟩ := Option.bind_eq_some_iff.mp hhistory
      exact ih (hrep.step hhash hfuel (haligned call List.mem_cons_self) hmiddle)
        (fun other hother => haligned other (List.mem_cons_of_mem _ hother))
        hrest

/-- The shadow table is the exact set of live pointers: in every history that
has not aborted, each search finds the entry of a live pointer and nothing for
any other, an allocation is reported as a duplicate exactly if its pointer is
live and meets a full table exactly if every slot holds a live entry of another
pointer, and a free ends and removes its own pointer only. -/
theorem exact_set {fuel : ℕ} (hfuel : tableSize ^ 3 ≤ fuel) {calls : List Call}
    (haligned : ∀ call ∈ calls, call.Aligned)
    (hhistory : history hash fuel (fun _ => none) calls = some table) :
    (∀ ptr, lookup hash table ptr = live calls ptr) ∧
      (∀ entry, Stored tableSize table entry ↔
        live calls entry.ptr = some entry) ∧
      (∀ entry, (Call.alloc entry).Aligned →
        (∀ existing, validateAlloc hash true table entry = .duplicate existing ↔
          live calls entry.ptr = some existing) ∧
        (validateAlloc hash true table entry = .tableFull ↔
          live calls entry.ptr = none ∧ ∀ slot < tableSize, ∃ other,
            table slot = some other ∧ live calls other.ptr = some other) ∧
        ((∃ next, validateAlloc hash true table entry = .recorded next) ↔
          live calls entry.ptr = none ∧
            ∃ slot < tableSize, table slot = none)) ∧
      ∀ ptr, ∃ next, validateFree hash fuel table ptr = some next ∧
        (∀ entry, Stored tableSize next entry ↔
          Stored tableSize table entry ∧ entry.ptr ≠ ptr) ∧
        ∀ other, lookup hash next other =
          if other = ptr then none else lookup hash table other := by
  have hrep : Represents hash table (live calls) :=
    represents_empty.history hhash hfuel haligned hhistory
  refine ⟨hrep.lookup_eq hhash, hrep.stored, fun entry hentry => ?_,
    fun ptr => ?_⟩
  · rcases hrep.validateAlloc_cases hhash hentry.1 hentry.2 with
      ⟨existing, hlive, houtcome⟩ | ⟨hlive, hfull, houtcome⟩ |
      ⟨next, hlive, ⟨slot, hslot, hempty⟩, houtcome, -⟩
    · simp [houtcome, hlive]
    · have hnone : ¬∃ slot < tableSize, table slot = none := by
        rintro ⟨slot, hslot, hempty⟩
        exact hfull slot hslot hempty
      have hheld : ∀ slot < tableSize, ∃ other,
          table slot = some other ∧ live calls other.ptr = some other := by
        intro slot hslot
        obtain ⟨other, hother⟩ :=
          Option.ne_none_iff_exists'.mp (hfull slot hslot)
        exact ⟨other, hother, (hrep.stored other).mp ⟨slot, hslot, hother⟩⟩
      simp only [houtcome, hlive, hnone, reduceCtorEq, exists_false, and_false,
        true_and, implies_true, and_true]
      exact ⟨fun _ => hheld, fun _ => trivial⟩
    · have hroom : ¬∀ slot < tableSize, ∃ other,
          table slot = some other ∧ live calls other.ptr = some other := by
        intro hheld
        obtain ⟨other, hother, -⟩ := hheld slot hslot
        rw [hempty] at hother
        cases hother
      simp only [houtcome, hlive, hroom, reduceCtorEq, and_false, true_and,
        implies_true]
      exact ⟨fun _ => ⟨slot, hslot, hempty⟩, fun _ => ⟨next, rfl⟩⟩
  · obtain ⟨next, hnext, hafter⟩ := hrep.validateFree hhash hfuel ptr
    refine ⟨next, hnext, fun entry => ?_, fun other => ?_⟩
    · rw [hafter.stored, hrep.stored]
      by_cases hkey : entry.ptr = ptr
      · simp [hkey]
      · simp [hkey]
    · rw [hafter.lookup_eq hhash, hrep.lookup_eq hhash, Function.update_apply]

end Proofs

/-- Two chunks with the same home slot; the first one is freed. -/
def collidingCalls : List Call :=
  [.alloc ⟨9536, 32, 7, 1⟩, .alloc ⟨14976, 32, 7, 2⟩, .free 9536]

/-- With the code's own hash, the second chunk is still found behind the hole and
reported if it is served again, and the first may be. -/
theorem exact_set_collided :
    hashPtr 9536 = hashPtr 14976 ∧
      ∃ table,
        history hashPtr (tableSize ^ 3) (fun _ => none) collidingCalls =
          some table ∧
        lookup hashPtr table 9536 = none ∧
        lookup hashPtr table 14976 = some ⟨14976, 32, 7, 2⟩ ∧
        validateAlloc hashPtr true table ⟨14976, 64, 8, 3⟩ =
          .duplicate ⟨14976, 32, 7, 2⟩ ∧
        (∃ next, validateAlloc hashPtr true table ⟨9536, 64, 8, 3⟩ =
          .recorded next) ∧
        ∃ emptied, validateFree hashPtr (tableSize ^ 3) table 14976 =
          some emptied ∧ lookup hashPtr emptied 14976 = none := by
  refine ⟨by decide +kernel, ?_⟩
  have hends : (history hashPtr (tableSize ^ 3) (fun _ => none)
      collidingCalls).any (fun table => (table 0).isNone) := by
    decide +kernel
  obtain ⟨table, hhistory, hempty⟩ := (Option.any_eq_true _ _).mp hends
  obtain ⟨hlookup, -, halloc, hfree⟩ := exact_set hashPtr_lt le_rfl
    (by simp [collidingCalls, Call.Aligned, maxAlign]) hhistory
  have hroom : ∃ slot < tableSize, table slot = none :=
    ⟨0, tableSize_pos, Option.isNone_iff_eq_none.mp hempty⟩
  obtain ⟨emptied, hemptied, -, hfound⟩ := hfree 14976
  exact ⟨table, hhistory, hlookup 9536, hlookup 14976,
    ((halloc ⟨14976, 64, 8, 3⟩ ⟨by decide, by decide⟩).1 _).mpr rfl,
    (halloc ⟨9536, 64, 8, 3⟩ ⟨by decide, by decide⟩).2.2.mpr ⟨rfl, hroom⟩,
    emptied, hemptied, (hfound 14976).trans (if_pos rfl)⟩

end TbjitAlloc.Shadow
