import TbjitAlloc.Core.Carving
import TbjitAlloc.Trampoline.Origin

/-!
# The bootstrap arena over a sequence of requests

`bootstrap_alloc` takes the space of every request, then compares in 64 bits.
As long as all requests fit, the blocks lie in the arena one behind the other.
The first one that does not fit gets a block that is too small, if its size
wraps around, or it uses up what was left for others.
-/

namespace TbjitAlloc.Trampoline

open TbjitAlloc.Carving

/-- The cursor after a request. -/
def bootstrapAdvance (used size : ℕ) : ℕ :=
  (used + bootstrapAligned size) % 2 ^ 64

/-- A request and its answer. -/
structure Grant where
  size : ℕ
  ptr : ℕ
  deriving DecidableEq

/-- The space of a request, up to a multiple of 16. -/
def rounded (size : ℕ) : ℕ := (size + 15) / 16 * 16

/-- There is space for the request. -/
def Fits (used size : ℕ) : Prop := used + rounded size ≤ bootstrapSize

instance (used size : ℕ) : Decidable (Fits used size) :=
  inferInstanceAs (Decidable (_ ≤ _))

section Run

variable (image : Image)

/-- The answers to a sequence of requests. -/
def bootstrapRun : ℕ → List ℕ → List Grant
  | _, [] => []
  | used, size :: sizes =>
      ⟨size, bootstrapAlloc image used size⟩ ::
        bootstrapRun (bootstrapAdvance used size) sizes

/-- A block is aligned and inside the arena. -/
def Grant.Inside (grant : Grant) : Prop :=
  16 ∣ grant.ptr ∧ image.bootstrap ≤ grant.ptr ∧
    grant.ptr + grant.size ≤ image.bootstrap + bootstrapSize

/-- A request that is refused takes nothing from another that fits. -/
def KeepsSpace : ℕ → List ℕ → Prop
  | _, [] => True
  | used, size :: sizes =>
      (bootstrapAlloc image used size = 0 → ∀ later < 2 ^ 64,
        Fits used later →
          bootstrapAlloc image (bootstrapAdvance used size) later ≠ 0) ∧
      KeepsSpace (bootstrapAdvance used size) sizes

/-- What the arena is for. -/
structure ArenaSound (used : ℕ) (sizes : List ℕ) : Prop where
  inside : ∀ grant ∈ bootstrapRun image used sizes,
    grant.ptr ≠ 0 → grant.Inside image
  disjoint : (bootstrapRun image used sizes).Pairwise fun earlier later =>
    earlier.ptr ≠ 0 → later.ptr ≠ 0 →
      Disjoint earlier.ptr earlier.size later.ptr later.size
  keeps : KeepsSpace image used sizes

end Run

section Requests

variable {image : Image} {used size : ℕ} {sizes : List ℕ}

theorem le_rounded (size : ℕ) : size ≤ rounded size := by
  rw [rounded]
  omega

/-- Between multiples of 16 rounding up changes nothing. -/
theorem fits_iff (hused : 16 ∣ used) :
    Fits used size ↔ used + size ≤ bootstrapSize := by
  rw [Fits, rounded, bootstrapSize]
  omega

/-- A request that fits is not reduced. -/
theorem bootstrapAdvance_of_fits (hfits : Fits used size) :
    bootstrapAdvance used size = used + rounded size := by
  have hle := le_rounded size
  rw [Fits, bootstrapSize] at hfits
  rw [bootstrapAdvance, bootstrapAligned, rounded] at *
  rw [Nat.mod_eq_of_lt (by omega), Nat.mod_eq_of_lt (by omega)]

theorem bootstrapAlloc_of_fits (hfits : Fits used size) :
    bootstrapAlloc image used size = image.bootstrap + used := by
  have hlt := image.bootstrap_lt
  have hadvance := bootstrapAdvance_of_fits hfits
  rw [bootstrapAdvance] at hadvance
  rw [Fits] at hfits
  rw [bootstrapAlloc, hadvance, if_neg (not_lt.mpr hfits),
    Nat.mod_eq_of_lt (by omega)]

/-- The cursor points to the next block, or past the end. -/
theorem bootstrapAlloc_of_le (hused : used ≤ bootstrapSize)
    (hserved : bootstrapAlloc image used size ≠ 0) :
    bootstrapAlloc image used size = image.bootstrap + used := by
  have hlt := image.bootstrap_lt
  rw [bootstrapAlloc] at hserved ⊢
  split at hserved
  · exact absurd rfl hserved
  · next hroom => rw [if_neg hroom, Nat.mod_eq_of_lt (by omega)]

/-- A refusal leaves the cursor past the end, so that even an empty block is
refused. -/
theorem bootstrapAlloc_of_refused
    (hrefused : bootstrapAlloc image used size = 0)
    (hused : used ≤ bootstrapSize) :
    bootstrapAlloc image (bootstrapAdvance used size) 0 = 0 := by
  have hlt := image.bootstrap_lt
  have hpos := image.bootstrap_pos
  rw [bootstrapAlloc] at hrefused
  split at hrefused
  · next hroom =>
      rw [bootstrapAlloc, if_pos]
      simpa [bootstrapAdvance, bootstrapAligned] using hroom
  · rw [Nat.mod_eq_of_lt (by omega)] at hrefused
    omega

/-- The head of a sound run fits. -/
theorem ArenaSound.fits (hsound : ArenaSound image used (size :: sizes))
    (hused : 16 ∣ used) (hle : used ≤ bootstrapSize) : Fits used size := by
  rw [fits_iff hused]
  by_cases hserved : bootstrapAlloc image used size = 0
  · have hempty : Fits used 0 := by rwa [fits_iff hused]
    exact absurd (bootstrapAlloc_of_refused hserved hle)
      (hsound.keeps.1 hserved 0 (by decide) hempty)
  · have hinside := (hsound.inside _ List.mem_cons_self hserved).2.2
    dsimp only at hinside
    rw [bootstrapAlloc_of_le hle hserved] at hinside
    omega

theorem ArenaSound.tail (hsound : ArenaSound image used (size :: sizes)) :
    ArenaSound image (bootstrapAdvance used size) sizes where
  inside grant hgrant := hsound.inside grant (List.mem_cons_of_mem _ hgrant)
  disjoint := (List.pairwise_cons.mp hsound.disjoint).2
  keeps := hsound.keeps.2

/-- In a sound run every request fits behind those before it. -/
theorem ArenaSound.sum_le (hsound : ArenaSound image used sizes)
    (hused : 16 ∣ used) (hle : used ≤ bootstrapSize) :
    used + (sizes.map rounded).sum ≤ bootstrapSize := by
  induction sizes generalizing used with
  | nil => simpa using hle
  | cons size sizes ih =>
      have hfits := hsound.fits hused hle
      have htail := hsound.tail
      rw [bootstrapAdvance_of_fits hfits] at htail
      have hnext : 16 ∣ used + rounded size :=
        hused.add (Nat.dvd_mul_left 16 _)
      rw [List.map_cons, List.sum_cons, ← Nat.add_assoc]
      exact ih htail hnext hfits

/-! ## Requests that fit -/

/-- The blocks of requests that fit begin at the cursor or behind it. -/
theorem inside_of_sum_le (haligned : 16 ∣ image.bootstrap) (hused : 16 ∣ used)
    (hsum : used + (sizes.map rounded).sum ≤ bootstrapSize) :
    ∀ grant ∈ bootstrapRun image used sizes,
      grant.Inside image ∧ image.bootstrap + used ≤ grant.ptr := by
  induction sizes generalizing used with
  | nil => exact fun grant hgrant => absurd hgrant List.not_mem_nil
  | cons size sizes ih =>
      rw [List.map_cons, List.sum_cons, ← Nat.add_assoc] at hsum
      have hfits : Fits used size := (Nat.le_add_right _ _).trans hsum
      have hnext : 16 ∣ used + rounded size :=
        hused.add (Nat.dvd_mul_left 16 _)
      intro grant hgrant
      rw [bootstrapRun, bootstrapAlloc_of_fits hfits,
        bootstrapAdvance_of_fits hfits] at hgrant
      rcases List.mem_cons.mp hgrant with rfl | hlater
      · have hend := (fits_iff hused).mp hfits
        exact ⟨⟨haligned.add hused, Nat.le_add_right _ _, by
          dsimp only
          omega⟩, le_rfl⟩
      · obtain ⟨hinside, hbehind⟩ := ih hnext hsum grant hlater
        exact ⟨hinside, by omega⟩

theorem disjoint_of_sum_le (haligned : 16 ∣ image.bootstrap)
    (hused : 16 ∣ used)
    (hsum : used + (sizes.map rounded).sum ≤ bootstrapSize) :
    (bootstrapRun image used sizes).Pairwise fun earlier later =>
      Disjoint earlier.ptr earlier.size later.ptr later.size := by
  induction sizes generalizing used with
  | nil => exact .nil
  | cons size sizes ih =>
      rw [List.map_cons, List.sum_cons, ← Nat.add_assoc] at hsum
      have hfits : Fits used size := (Nat.le_add_right _ _).trans hsum
      have hnext : 16 ∣ used + rounded size :=
        hused.add (Nat.dvd_mul_left 16 _)
      rw [bootstrapRun, bootstrapAlloc_of_fits hfits,
        bootstrapAdvance_of_fits hfits]
      refine .cons (fun later hlater => .inl ?_) (ih hnext hsum)
      have hbehind := (inside_of_sum_le haligned hnext hsum later hlater).2
      have hsize := le_rounded size
      dsimp only
      omega

/-- Nothing is refused. -/
theorem keepsSpace_of_sum_le
    (hsum : used + (sizes.map rounded).sum ≤ bootstrapSize) :
    KeepsSpace image used sizes := by
  induction sizes generalizing used with
  | nil => trivial
  | cons size sizes ih =>
      rw [List.map_cons, List.sum_cons, ← Nat.add_assoc] at hsum
      have hfits : Fits used size := (Nat.le_add_right _ _).trans hsum
      refine ⟨fun hrefused => ?_, ?_⟩
      · have hpos := image.bootstrap_pos
        rw [bootstrapAlloc_of_fits hfits] at hrefused
        omega
      · rw [bootstrapAdvance_of_fits hfits]
        exact ih hsum

/-- The arena does what it is for in exactly the runs in which all requests
together fit. -/
theorem arenaSound_iff (haligned : 16 ∣ image.bootstrap) (sizes : List ℕ) :
    ArenaSound image 0 sizes ↔ (sizes.map rounded).sum ≤ bootstrapSize := by
  constructor
  · intro hsound
    simpa using hsound.sum_le (Nat.dvd_zero 16) (Nat.zero_le _)
  · intro hsum
    have hsum : 0 + (sizes.map rounded).sum ≤ bootstrapSize := by
      rwa [Nat.zero_add]
    exact ⟨fun grant hgrant _ =>
        (inside_of_sum_le haligned (Nat.dvd_zero 16) hsum grant hgrant).1,
      (disjoint_of_sum_le haligned (Nat.dvd_zero 16) hsum).imp
        fun hdisjoint _ _ => hdisjoint,
      keepsSpace_of_sum_le hsum⟩

/-- Three requests fit, and one more than the arena does not. -/
theorem arenaSound_iff_small :
    16 ∣ smallImage.bootstrap ∧ ArenaSound smallImage 0 [24, 0, 4096] ∧
      ¬ArenaSound smallImage 0 [24, 65536, 16] := by
  have haligned : 16 ∣ smallImage.bootstrap := by decide
  exact ⟨haligned, (arenaSound_iff haligned _).mpr (by decide),
    (arenaSound_iff haligned _).not.mpr (by decide)⟩

/-- A request of all but one of `2^64` bytes gets the start of the arena, and
one that is a little too large leaves nothing for others. -/
theorem not_arenaSound :
    ¬ArenaSound smallImage 0 [2 ^ 64 - 1] ∧
      ¬ArenaSound smallImage 0 [65537] := by
  constructor
  · intro hsound
    have hinside := hsound.inside ⟨2 ^ 64 - 1, smallImage.bootstrap⟩
      (by decide) (by decide)
    exact absurd hinside.2.2 (by decide)
  · intro hsound
    exact hsound.keeps.1 (by decide) 16 (by decide) (by decide) (by decide)

end Requests

/-! ## The requests of a process -/

/-- The arena of a process answers as in the run of its requests. -/
theorem foldl_bootstrapServe (image : Image) (process : Process)
    (sizes : List ℕ) :
    (sizes.foldl (fun process size => process.bootstrapServe image size)
        process).bootstrapServed =
      (((bootstrapRun image process.bootstrapUsed sizes).map
        Grant.ptr).filter (· ≠ 0)).reverse ++ process.bootstrapServed := by
  induction sizes generalizing process with
  | nil => rfl
  | cons size sizes ih =>
      rw [List.foldl_cons, ih, bootstrapRun, List.map_cons]
      by_cases hserved : bootstrapAlloc image process.bootstrapUsed size = 0 <;>
        simp [Process.bootstrapServe, bootstrapAdvance, hserved]

end TbjitAlloc.Trampoline
