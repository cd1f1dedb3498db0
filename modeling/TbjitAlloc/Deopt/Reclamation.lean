import TbjitAlloc.Deopt.System

/-!
# Reclaiming code pages

A thread that holds a page published its epoch before it obtained the routine,
and the routine was in the table then.  The page's deopt is reset after the
revert, so it carries an epoch at least as large, and the scan over the thread
list keeps the page.  The argument needs the thread to be on that list.
-/

namespace TbjitAlloc.Deopt

open TbjitAlloc.Analysis
open TbjitAlloc.Codegen
open TbjitAlloc.Dispatch
open TbjitAlloc.Transition

/-- The site of a prologue and the position that was settled at its start. -/
def windowOf : InlineCache.MallocPc → Option (CallSiteID × ℕ)
  | .idle => none
  | .generation id floor => some (id, floor)
  | .lookup id floor _ => some (id, floor)
  | .fill id floor _ _ => some (id, floor)
  | .call id floor _ => some (id, floor)

namespace System

/-- A call that starts now may obtain the value at this position, or one in
progress on a registered thread may have. -/
def Visible (system : System) (id : CallSiteID) (position : ℕ) : Prop :=
  system.cache.settled id ≤ position ∨
    ∃ tid floor, tid ∈ system.deopt.threads ∧
      windowOf (system.cache.mallocs tid) = some (id, floor) ∧ floor ≤ position

/-- The site's pointer had this value at this position. -/
def Stored (system : System) (id : CallSiteID) (position page : ℕ) : Prop :=
  (system.cache.stores id)[position]? = some page

/-- Some visible position has the page. -/
def InSight (system : System) (page : ℕ) : Prop :=
  ∃ id position, system.Visible id position ∧ system.Stored id position page

/-- A deopt of the page is past its revert and not yet reclaimed. -/
def Retired (system : System) (page : ℕ) : Prop :=
  (∃ tid deopt, system.deopt.thread tid = .reverted deopt ∧
      system.cache.updates (tid + 1) = .idle ∧ deopt.page = page) ∨
    page ∈ system.deopt.outstanding.map DequeuedDeopt.page ∨
      page ∈ system.deopt.pending.map PendingReclaim.page

end System

/-- The thread's epoch keeps the page on the pending list. -/
def Spared (state : State) (tid page : ℕ) : Prop :=
  ∀ entry ∈ state.pending, entry.page = page →
    state.threadEpoch tid ≤ entry.epoch ∧
      ∀ rest minEpoch, state.background = .scanning rest minEpoch →
        tid ∈ rest ∨ minEpoch ≤ entry.epoch

/-- What holds of a thread. -/
structure CallOk (system : System) (tid : ℕ) : Prop where
  idle : (system.call tid = .outside ∨
      ∃ id, system.call tid = .marking id) →
    system.cache.mallocs tid = .idle
  reverted : ∀ deopt, system.deopt.thread tid = .reverted deopt →
    deopt.page ≠ 0 ∧ system.call tid = .running ∧
      ∃ floor, system.cache.mallocs tid = .call deopt.id floor deopt.page
  loaded : ∀ epoch, system.deopt.thread tid = .loaded epoch →
    epoch ≤ system.deopt.epoch
  epoch_le : system.deopt.threadEpoch tid ≤ system.deopt.epoch
  unregistered : tid ∉ system.deopt.threads →
    routineOf (system.cache.mallocs tid) = 0
  reverts : ∀ id fn, system.cache.updates (tid + 1) = .store id fn →
    fn = 0 ∧ ∃ deopt, system.deopt.thread tid = .reverted deopt ∧ deopt.id = id
  bumps : ∀ id position, system.cache.updates (tid + 1) = .bump id position →
    ∃ deopt, system.deopt.thread tid = .reverted deopt ∧
      ∀ site earlier, system.Visible site earlier →
        system.Stored site earlier deopt.page → site = id ∧ earlier < position

/-- What holds of the pages. -/
structure PagesOk (system : System) : Prop where
  unique : ∀ {id position site other page}, page ≠ 0 →
    system.Visible id position → system.Visible site other →
    system.Stored id position page → system.Stored site other page →
    id = site ∧ position = other
  mapped : ∀ {page}, page ≠ 0 → system.InSight page → page ∈ system.mapped
  exposed : ∀ {id position page}, page ≠ 0 →
    system.cache.settled id ≤ position → system.Stored id position page →
    ¬system.Retired page
  spared : ∀ {tid id floor position page}, page ≠ 0 →
    tid ∈ system.deopt.threads →
    windowOf (system.cache.mallocs tid) = some (id, floor) →
    floor ≤ position → system.Stored id position page →
    Spared system.deopt tid page
  storing : ∀ {id page}, system.cache.updates 0 = .store id page → page ≠ 0 →
    page ∈ system.mapped ∧ ¬system.InSight page ∧ ¬system.Retired page
  present : ∀ {id}, system.cache.present id = false →
    ∀ page ∈ system.cache.stores id, page = 0

structure Reclaims (system : System) : Prop where
  cache : InlineCache.Inv system.cache
  calls : ∀ tid, CallOk system tid
  pages : PagesOk system

/-! ## Safety -/

section Safety

variable {system : System}

/-- A thread that holds a page has it in its window. -/
theorem Reclaims.window_of_holds (hok : Reclaims system) {tid page : ℕ}
    (hholds : system.Holds tid page) :
    tid ∈ system.deopt.threads ∧ ∃ id floor position,
      windowOf (system.cache.mallocs tid) = some (id, floor) ∧
        floor ≤ position ∧ system.Stored id position page := by
  obtain ⟨hpage, hroutine⟩ := hholds
  have hregistered : tid ∈ system.deopt.threads := by
    by_contra hnot
    exact hpage (hroutine ▸ (hok.calls tid).unregistered hnot)
  have hmalloc := hok.cache.malloc tid
  cases hpc : system.cache.mallocs tid <;> rw [hpc] at hmalloc hroutine
  case fill id floor curGen fn =>
    obtain ⟨position, hfloor, hstored⟩ := hmalloc.1
    obtain rfl : fn = page := hroutine
    exact ⟨hregistered, id, floor, position, rfl, hfloor, hstored⟩
  case call id floor fn =>
    obtain ⟨position, hfloor, hstored⟩ := hmalloc
    obtain rfl : fn = page := hroutine
    exact ⟨hregistered, id, floor, position, rfl, hfloor, hstored⟩
  all_goals exact absurd hroutine.symm hpage

theorem Reclaims.inSight_of_holds (hok : Reclaims system) {tid page : ℕ}
    (hholds : system.Holds tid page) : system.InSight page := by
  obtain ⟨hregistered, id, floor, position, hwindow, hfloor, hstored⟩ :=
    hok.window_of_holds hholds
  exact ⟨id, position, .inr ⟨tid, floor, hregistered, hwindow, hfloor⟩, hstored⟩

/-- The page of a call of `handle` is in sight. -/
theorem Reclaims.inSight_of_reverted (hok : Reclaims system) {tid : ℕ}
    {deopt : DequeuedDeopt}
    (hthread : system.deopt.thread tid = .reverted deopt) :
    system.InSight deopt.page := by
  obtain ⟨hpage, -, floor, hmalloc⟩ := (hok.calls tid).reverted deopt hthread
  exact hok.inSight_of_holds ⟨hpage, by rw [hmalloc]; rfl⟩

theorem mem_due {state : State} {page : ℕ} (hdue : page ∈ state.due) :
    ∃ minEpoch, state.background = .scanning [] minEpoch ∧
      ∃ entry ∈ state.pending, entry.page = page ∧ entry.epoch < minEpoch := by
  rw [State.due] at hdue
  split at hdue
  · next minEpoch hscanning =>
      obtain ⟨entry, hentry, rfl⟩ := List.mem_map.mp hdue
      rw [List.mem_filter, decide_eq_true_eq] at hentry
      exact ⟨minEpoch, hscanning, entry, hentry.1, rfl, hentry.2⟩
  · cases hdue

theorem Spared.not_due {state : State} {tid page : ℕ}
    (hspared : Spared state tid page) : page ∉ state.due := by
  intro hdue
  obtain ⟨minEpoch, hscanning, entry, hentry, hpage, hlt⟩ := mem_due hdue
  rcases (hspared entry hentry hpage).2 [] minEpoch hscanning with hmem | hle
  · cases hmem
  · exact absurd hlt (Nat.not_lt.mpr hle)

theorem System.retired_of_due {page : ℕ} (hdue : page ∈ system.deopt.due) :
    system.Retired page := by
  obtain ⟨-, -, entry, hentry, rfl, -⟩ := mem_due hdue
  exact .inr (.inr (List.mem_map_of_mem hentry))

/-- No page in sight is about to be reclaimed. -/
theorem PagesOk.not_due (hpages : PagesOk system) {page : ℕ} (hpage : page ≠ 0)
    (hsight : system.InSight page) : page ∉ system.deopt.due := by
  obtain ⟨id, position, hexposed | ⟨tid, floor, htid, hwindow, hfloor⟩,
    hstored⟩ := hsight
  · exact fun hdue => hpages.exposed hpage hexposed hstored
      (system.retired_of_due hdue)
  · exact (hpages.spared hpage htid hwindow hfloor hstored).not_due

theorem Reclaims.safe (hok : Reclaims system) : system.Safe := by
  intro tid page hholds
  have hsight := hok.inSight_of_holds hholds
  exact ⟨hok.pages.not_due hholds.1 hsight, hok.pages.mapped hholds.1 hsight⟩

end Safety

/-! ## Frames -/

section Frames

variable {system next : System}

/-- A thread of which nothing changes while another party moves. -/
theorem CallOk.frame {tid : ℕ} (hok : CallOk system tid)
    (hcall : next.call tid = system.call tid)
    (hmalloc : next.cache.mallocs tid = system.cache.mallocs tid)
    (hthread : next.deopt.thread tid = system.deopt.thread tid)
    (hthreads : tid ∈ system.deopt.threads → tid ∈ next.deopt.threads)
    (hpublished : next.deopt.threadEpoch tid = system.deopt.threadEpoch tid)
    (hepoch : system.deopt.epoch ≤ next.deopt.epoch)
    (hupdate : next.cache.updates (tid + 1) = system.cache.updates (tid + 1))
    (hsight : ∀ deopt, system.deopt.thread tid = .reverted deopt →
      ∀ id position, next.Visible id position →
        next.Stored id position deopt.page →
        system.Visible id position ∧ system.Stored id position deopt.page) :
    CallOk next tid where
  idle := by
    rw [hcall, hmalloc]
    exact hok.idle
  reverted := by
    rw [hcall, hmalloc, hthread]
    exact hok.reverted
  loaded := fun epoch hloaded =>
    (hok.loaded epoch (hthread ▸ hloaded)).trans hepoch
  epoch_le := by
    rw [hpublished]
    exact hok.epoch_le.trans hepoch
  unregistered := fun hnot => by
    rw [hmalloc]
    exact hok.unregistered fun hmem => hnot (hthreads hmem)
  reverts := by
    rw [hupdate, hthread]
    exact hok.reverts
  bumps := by
    rw [hupdate, hthread]
    intro id position hbump
    obtain ⟨deopt, hreverted, hlater⟩ := hok.bumps id position hbump
    refine ⟨deopt, hreverted, fun site earlier hvisible hstored => ?_⟩
    obtain ⟨hvisible, hstored⟩ :=
      hsight deopt hreverted site earlier hvisible hstored
    exact hlater site earlier hvisible hstored

/-- A thread's windows were open before, or open on what can be obtained now. -/
def Narrows (system next : System) : Prop :=
  ∀ tid id floor, tid ∈ next.deopt.threads →
    windowOf (next.cache.mallocs tid) = some (id, floor) →
    (tid ∈ system.deopt.threads ∧
        windowOf (system.cache.mallocs tid) = some (id, floor)) ∨
      next.cache.settled id ≤ floor

theorem Narrows.visible (hnarrows : Narrows system next)
    (hsettled : ∀ id, system.cache.settled id ≤ next.cache.settled id)
    {id position : ℕ} (hvisible : next.Visible id position) :
    system.Visible id position := by
  rcases hvisible with hexposed | ⟨tid, floor, htid, hwindow, hfloor⟩
  · exact .inl ((hsettled id).trans hexposed)
  · rcases hnarrows tid id floor htid hwindow with ⟨hold, hsame⟩ | hnew
    · exact .inr ⟨tid, floor, hold, hsame, hfloor⟩
    · exact .inl (((hsettled id).trans hnew).trans hfloor)

/-- A step that stores no routine.  It may retire a page that was in sight and
can no longer be obtained. -/
theorem PagesOk.frame (hpages : PagesOk system)
    (hstores : next.cache.stores = system.cache.stores)
    (hpresent : next.cache.present = system.cache.present)
    (hsettled : ∀ id, system.cache.settled id ≤ next.cache.settled id)
    (hnarrows : Narrows system next)
    (hmapped : ∀ page ∈ system.mapped, page ∉ system.deopt.due →
      page ∈ next.mapped)
    (hretired : ∀ page, next.Retired page → system.Retired page ∨
      system.InSight page ∧ ∀ id position, next.cache.settled id ≤ position →
        ¬next.Stored id position page)
    (hspared : ∀ tid page, tid ∈ system.deopt.threads →
      windowOf (system.cache.mallocs tid) ≠ none →
      Spared system.deopt tid page → Spared next.deopt tid page)
    (hstoring : ∀ id page, next.cache.updates 0 = .store id page → page ≠ 0 →
      system.cache.updates 0 = .store id page ∨
        page ∉ system.mapped ∧ page ∈ next.mapped ∧ ¬next.Retired page) :
    PagesOk next := by
  have hstored : ∀ id position page, next.Stored id position page ↔
      system.Stored id position page := by
    intro id position page
    rw [System.Stored, System.Stored, hstores]
  have hvisible : ∀ id position, next.Visible id position →
      system.Visible id position := fun _ _ => hnarrows.visible hsettled
  have hsight : ∀ page, next.InSight page → system.InSight page := by
    rintro page ⟨id, position, hnext, hvalue⟩
    exact ⟨id, position, hvisible id position hnext, (hstored _ _ _).mp hvalue⟩
  have hexposed : ∀ id position page, page ≠ 0 →
      next.cache.settled id ≤ position → next.Stored id position page →
      ¬next.Retired page := by
    intro id position page hpage hle hvalue hretires
    rcases hretired page hretires with hbefore | ⟨-, hgone⟩
    · exact hpages.exposed hpage ((hsettled id).trans hle)
        ((hstored _ _ _).mp hvalue) hbefore
    · exact hgone id position hle hvalue
  constructor
  · intro id position site other page hpage hleft hright hstoredLeft hstoredRight
    exact hpages.unique hpage (hvisible _ _ hleft) (hvisible _ _ hright)
      ((hstored _ _ _).mp hstoredLeft) ((hstored _ _ _).mp hstoredRight)
  · intro page hpage hin
    exact hmapped page (hpages.mapped hpage (hsight page hin))
      (hpages.not_due hpage (hsight page hin))
  · intro id position page hpage hle hvalue
    exact hexposed id position page hpage hle hvalue
  · intro tid id floor position page hpage htid hwindow hfloor hvalue
    rcases hnarrows tid id floor htid hwindow with ⟨hold, hsame⟩ | hnew
    · refine hspared tid page hold ?_ (hpages.spared hpage hold hsame hfloor
        ((hstored _ _ _).mp hvalue))
      rw [hsame]
      exact Option.some_ne_none _
    · intro entry hentry hname
      exact absurd (.inr (.inr (List.mem_map.mpr ⟨entry, hentry, hname⟩)))
        (hexposed id position page hpage (hnew.trans hfloor) hvalue)
  · intro id page hstore hpage
    rcases hstoring id page hstore hpage with hbefore | ⟨hnew, hmap, hfresh⟩
    · obtain ⟨hmap, hunseen, hfresh⟩ := hpages.storing hbefore hpage
      refine ⟨hmapped page hmap fun hdue => hfresh (system.retired_of_due hdue),
        fun hin => hunseen (hsight page hin), fun hretires => ?_⟩
      rcases hretired page hretires with hretiredBefore | ⟨hin, -⟩
      · exact hfresh hretiredBefore
      · exact hunseen hin
    · exact ⟨hmap, fun hin => hnew (hpages.mapped hpage (hsight page hin)),
        hfresh⟩
  · intro id
    rw [hpresent, hstores]
    exact hpages.present

end Frames

/-! ## Steps of the prologue -/

section Moves

variable {system next : System} {tid : ℕ}

theorem Reclaims.goto (hok : Reclaims system) {phase : CallPhase}
    (counter : ℕ → ℕ)
    (hidle : (phase = .outside ∨ ∃ id, phase = .marking id) →
      system.cache.mallocs tid = .idle)
    (hthread : ∀ deopt, system.deopt.thread tid = .reverted deopt →
      phase = .running) :
    Reclaims { system.goto tid phase with counter := counter } where
  cache := hok.cache
  calls := by
    intro other
    by_cases heq : other = tid
    · subst heq
      have hself : (system.goto other phase).call other = phase :=
        Function.update_self _ _ _
      refine { hok.calls other with idle := ?_, reverted := ?_ }
      · dsimp only
        rw [hself]
        exact hidle
      · intro deopt hreverted
        dsimp only
        rw [hself]
        obtain ⟨hpage, -, hmalloc⟩ := (hok.calls other).reverted deopt hreverted
        exact ⟨hpage, hthread deopt hreverted, hmalloc⟩
    · exact (hok.calls other).frame (Function.update_of_ne heq _ _) rfl rfl id
        rfl le_rfl rfl fun _ _ _ _ hvisible hstored => ⟨hvisible, hstored⟩
  pages := hok.pages.frame rfl rfl (fun _ => le_rfl)
    (fun _ _ _ htid hwindow => .inl ⟨htid, hwindow⟩) (fun _ hmem _ => hmem)
    (fun _ => .inl) (fun _ _ _ _ => id) fun _ _ hstore _ => .inl hstore

/-- The prologue of a thread moves on; the table stays as it is. -/
theorem Reclaims.move (hok : Reclaims system) {cache : InlineCache.State}
    {pc : InlineCache.MallocPc} (hcache : InlineCache.Inv cache)
    (hmallocs : cache.mallocs = Function.update system.cache.mallocs tid pc)
    (hstores : cache.stores = system.cache.stores)
    (hpresent : cache.present = system.cache.present)
    (hsettled : cache.settled = system.cache.settled)
    (hupdates : cache.updates = system.cache.updates)
    (hidle : (system.call tid = .outside ∨
      ∃ id, system.call tid = .marking id) → pc = .idle)
    (hthread : ∀ deopt, system.deopt.thread tid = .reverted deopt →
      pc = system.cache.mallocs tid)
    (hregistered : tid ∉ system.deopt.threads → routineOf pc = 0)
    (hwindow : ∀ id floor, windowOf pc = some (id, floor) →
      windowOf (system.cache.mallocs tid) = some (id, floor) ∨
        system.cache.settled id ≤ floor) :
    Reclaims { system with cache := cache } := by
  have hself : cache.mallocs tid = pc := by
    rw [hmallocs, Function.update_self]
  have hother : ∀ other, other ≠ tid →
      cache.mallocs other = system.cache.mallocs other := by
    intro other heq
    rw [hmallocs, Function.update_of_ne heq]
  have hnarrows : Narrows system { system with cache := cache } := by
    intro other id floor hmem hopen
    dsimp only at hopen
    by_cases heq : other = tid
    · rw [heq, hself] at hopen
      dsimp only
      rw [hsettled, heq]
      exact (hwindow id floor hopen).imp_left fun hsame => ⟨heq ▸ hmem, hsame⟩
    · rw [hother other heq] at hopen
      exact .inl ⟨hmem, hopen⟩
  have hsight : ∀ id position page,
      { system with cache := cache : System }.Visible id position →
      { system with cache := cache : System }.Stored id position page →
      system.Visible id position ∧ system.Stored id position page := by
    intro id position page hvisible hstored
    refine ⟨hnarrows.visible (fun id => by rw [hsettled]) hvisible, ?_⟩
    rw [System.Stored, ← hstores]
    exact hstored
  refine ⟨hcache, fun other => ?_, ?_⟩
  · by_cases heq : other = tid
    · subst heq
      have hbefore := hok.calls other
      constructor
      · dsimp only
        rw [hself]
        exact hidle
      · intro deopt hreverted
        dsimp only
        rw [hself, hthread deopt hreverted]
        exact hbefore.reverted deopt hreverted
      · exact hbefore.loaded
      · exact hbefore.epoch_le
      · dsimp only
        rw [hself]
        exact hregistered
      · dsimp only
        rw [hupdates]
        exact hbefore.reverts
      · dsimp only
        rw [hupdates]
        intro id position hbump
        obtain ⟨deopt, hreverted, hlater⟩ := hbefore.bumps id position hbump
        refine ⟨deopt, hreverted, fun site earlier hvisible hstored => ?_⟩
        obtain ⟨hvisible, hstored⟩ := hsight _ _ _ hvisible hstored
        exact hlater site earlier hvisible hstored
    · exact (hok.calls other).frame rfl (hother other heq) rfl id rfl le_rfl
        (by rw [hupdates]) fun deopt _ site position => hsight site position _
  · refine hok.pages.frame hstores hpresent (fun id => by rw [hsettled])
      hnarrows (fun _ hmem _ => hmem) (fun page hretired => .inl ?_)
      (fun _ _ _ _ => id) fun id page hstore _ => .inl ?_
    · rw [System.Retired] at hretired ⊢
      dsimp only at hretired
      rw [hupdates] at hretired
      exact hretired
    · dsimp only at hstore
      rw [hupdates] at hstore
      exact hstore

theorem Reclaims.enter (hok : Reclaims system) {id : CallSiteID}
    (hcall : system.call tid = .running)
    (haccess : system.access (.malloc tid id) = some next) : Reclaims next := by
  obtain ⟨cache, hcache, rfl⟩ := Option.map_eq_some_iff.mp haccess
  have hinv := hok.cache.step hcache
  rw [InlineCache.step] at hcache
  split at hcache
  · next hidle =>
      obtain rfl := Option.some.inj hcache
      refine hok.move hinv rfl rfl rfl rfl rfl ?_ ?_ ?_ ?_
      · rw [hcall]
        rintro (hout | ⟨site, hmarking⟩)
        · cases hout
        · cases hmarking
      · intro deopt hreverted
        obtain ⟨-, -, floor, hmalloc⟩ :=
          (hok.calls tid).reverted deopt hreverted
        rw [hidle] at hmalloc
        cases hmalloc
      · exact fun _ => rfl
      · intro site floor hwindow
        obtain ⟨rfl, rfl⟩ := Prod.mk.inj (Option.some.inj hwindow)
        exact .inr le_rfl
  · cases hcache

/-- A thread whose prologue has begun is in a call. -/
theorem Reclaims.not_resting (hok : Reclaims system)
    (hpc : system.cache.mallocs tid ≠ .idle) :
    ¬(system.call tid = .outside ∨ ∃ id, system.call tid = .marking id) :=
  fun hresting => hpc ((hok.calls tid).idle hresting)

theorem Reclaims.prologue (hok : Reclaims system)
    (hregistered : system.obtains tid ≠ 0 → tid ∈ system.deopt.threads)
    (hstep : system.prologue tid = some next) : Reclaims next := by
  rw [System.prologue] at hstep
  split at hstep
  · cases hstep
  · next hnotCall =>
      obtain ⟨cache, hcache, rfl⟩ := Option.map_eq_some_iff.mp hstep
      have hinv := hok.cache.step hcache
      have hthread : ∀ deopt, system.deopt.thread tid ≠ .reverted deopt := by
        intro deopt hreverted
        obtain ⟨-, -, floor, hmalloc⟩ :=
          (hok.calls tid).reverted deopt hreverted
        exact hnotCall _ _ _ hmalloc
      have hnone : tid ∉ system.deopt.threads → system.obtains tid = 0 :=
        fun hnot => not_not.mp fun hne => hnot (hregistered hne)
      rw [InlineCache.step, InlineCache.State.mallocStep] at hcache
      rw [System.obtains] at hnone
      split at hcache
      · cases hcache
      · next id floor hpc =>
          obtain rfl := Option.some.inj hcache
          rw [hpc] at hnone
          refine hok.move hinv rfl rfl rfl rfl rfl ?_
            (fun deopt h => absurd h (hthread deopt)) (fun hnot => ?_) ?_
          · exact fun h => absurd h (hok.not_resting (hpc ▸ InlineCache.MallocPc.noConfusion))
          · have hzero := hnone hnot
            dsimp only at hzero
            split at hzero
            · next hhit =>
                rw [if_pos hhit]
                exact hzero
            · next hmiss =>
                rw [if_neg hmiss]
                rfl
          · intro site opened hwindow
            rw [hpc]
            split at hwindow <;> exact .inl hwindow
      · next id floor curGen hpc =>
          obtain rfl := Option.some.inj hcache
          rw [hpc] at hnone
          refine hok.move hinv rfl rfl rfl rfl rfl ?_
            (fun deopt h => absurd h (hthread deopt)) hnone ?_
          · exact fun h => absurd h (hok.not_resting (hpc ▸ InlineCache.MallocPc.noConfusion))
          · intro site opened hwindow
            rw [hpc]
            exact .inl hwindow
      · next id floor curGen fn hpc =>
          obtain rfl := Option.some.inj hcache
          have hfound := (hok.calls tid).unregistered
          rw [hpc] at hfound
          refine hok.move hinv rfl rfl rfl rfl rfl ?_
            (fun deopt h => absurd h (hthread deopt)) hfound ?_
          · exact fun h => absurd h (hok.not_resting (hpc ▸ InlineCache.MallocPc.noConfusion))
          · intro site opened hwindow
            rw [hpc]
            exact .inl hwindow
      · next hpc => exact absurd hpc (hnotCall _ _ _)

theorem Reclaims.leave (hok : Reclaims system)
    (hstep : system.leave tid = some next) : Reclaims next := by
  rw [System.leave] at hstep
  split at hstep
  · next id floor fn hpc =>
      split at hstep
      · next hthread =>
          have hnone : ∀ deopt, system.deopt.thread tid ≠ .reverted deopt := by
            intro deopt
            rw [hthread]
            exact ThreadPhase.noConfusion
          obtain ⟨cache, hcache, rfl⟩ := Option.map_eq_some_iff.mp hstep
          have hinv := hok.cache.step hcache
          rw [InlineCache.step, InlineCache.State.mallocStep] at hcache
          dsimp only [System.goto] at hcache
          rw [hpc] at hcache
          obtain rfl := Option.some.inj hcache
          -- The thread moves first, so that it rests with its prologue idle.
          have hmoved := hok.move hinv rfl rfl rfl rfl rfl (fun _ => rfl)
            (fun deopt h => absurd h (hnone deopt)) (fun _ => rfl)
            fun _ _ hwindow => by cases hwindow
          exact hmoved.goto system.counter
            (fun _ => Function.update_self _ _ _)
            fun deopt h => absurd h (hnone deopt)
      · cases hstep
  · cases hstep

end Moves

/-! ## Steps of an update -/

section Updates

variable {system next : System} {call : ℕ}

/-- What an update stores is zero, or a page that nobody has seen. -/
theorem Reclaims.unseen_of_store (hok : Reclaims system) {id fn : ℕ}
    (hupdate : system.cache.updates call = .store id fn) (hfn : fn ≠ 0) :
    call = 0 ∧ fn ∈ system.mapped ∧ ¬system.InSight fn ∧
      ¬system.Retired fn := by
  cases call with
  | zero => exact ⟨rfl, hok.pages.storing hupdate hfn⟩
  | succ tid => exact absurd ((hok.calls tid).reverts id fn hupdate).1 hfn

/-- The store of an update. -/
def storing (cache : InlineCache.State) (call id fn : ℕ) : InlineCache.State :=
  { cache.setUpdate call (.bump id (cache.stores id).length) with
    routine := Function.update cache.routine id fn
    present := Function.update cache.present id true
    stores := Function.update cache.stores id (cache.stores id ++ [fn]) }

theorem stored_storing {id fn site position page : ℕ} :
    { system with cache := storing system.cache call id fn : System }.Stored site
        position page ↔
      system.Stored site position page ∨
        site = id ∧ position = (system.cache.stores id).length ∧ page = fn := by
  rw [System.Stored, System.Stored, storing]
  dsimp only
  by_cases hsite : site = id
  · subst hsite
    rw [Function.update_self, List.getElem?_append]
    split
    · next hlt =>
        refine ⟨.inl, fun hor => hor.resolve_right ?_⟩
        rintro ⟨-, rfl, -⟩
        exact Nat.lt_irrefl _ hlt
    · next hge =>
        rw [List.getElem?_singleton, List.getElem?_eq_none (Nat.not_lt.mp hge)]
        split
        · next hzero =>
            have hlast : position = (system.cache.stores site).length := by
              omega
            simp [hlast, eq_comm]
        · next hne =>
            have hbeyond : position ≠ (system.cache.stores site).length := by
              rintro rfl
              exact hne (Nat.sub_self _)
            simp [hbeyond]
  · rw [Function.update_of_ne hsite]
    simp [hsite]

theorem Reclaims.store (hok : Reclaims system) {id fn : ℕ}
    (hupdate : system.cache.updates call = .store id fn)
    (hcache : InlineCache.Inv (storing system.cache call id fn)) :
    Reclaims { system with cache := storing system.cache call id fn } := by
  have hunseen := hok.unseen_of_store hupdate
  have hother : ∀ place, place ≠ call →
      (storing system.cache call id fn).updates place =
        system.cache.updates place := fun place hne =>
    Function.update_of_ne hne _ _
  -- A page in sight gets no new position.
  have hkept : ∀ {site position page}, page ≠ 0 → system.InSight page →
      { system with cache := storing system.cache call id fn : System }.Stored
        site position page → system.Stored site position page := by
    intro site position page hpage hsight hstored
    rcases stored_storing.mp hstored with hold | ⟨-, -, rfl⟩
    · exact hold
    · exact absurd hsight (hunseen hpage).2.2.1
  have hretired : ∀ page,
      { system with cache := storing system.cache call id fn : System }.Retired
        page → system.Retired page := by
    rintro page (⟨tid, deopt, hthread, hidle, hname⟩ | hrest)
    · refine .inl ⟨tid, deopt, hthread, ?_, hname⟩
      rw [← hother (tid + 1)]
      · exact hidle
      · rintro rfl
        dsimp only [storing, InlineCache.State.setUpdate] at hidle
        rw [Function.update_self] at hidle
        cases hidle
    · exact .inr hrest
  refine ⟨hcache, fun tid => ?_, ?_⟩
  · by_cases heq : tid + 1 = call
    · subst heq
      obtain ⟨rfl, deopt, hthread, rfl⟩ := (hok.calls tid).reverts id fn hupdate
      obtain ⟨hpage, -, floor, hmalloc⟩ :=
        (hok.calls tid).reverted deopt hthread
      have hholds : system.Holds tid deopt.page := ⟨hpage, by rw [hmalloc]; rfl⟩
      obtain ⟨hregistered, site, opened, place, hwindow, hfloor, hvalue⟩ :=
        hok.window_of_holds hholds
      have hself : (storing system.cache (tid + 1) deopt.id 0).updates
          (tid + 1) = .bump deopt.id (system.cache.stores deopt.id).length :=
        Function.update_self _ _ _
      refine { hok.calls tid with reverts := ?_, bumps := ?_ }
      · dsimp only
        rw [hself]
        exact fun _ _ => InlineCache.UpdatePc.noConfusion
      · dsimp only
        rw [hself]
        intro other position hbump
        obtain ⟨rfl, rfl⟩ := InlineCache.UpdatePc.bump.inj hbump
        refine ⟨deopt, hthread, fun other earlier hvisible hstored => ?_⟩
        rw [hmalloc] at hwindow
        obtain ⟨rfl, rfl⟩ := Prod.mk.inj (Option.some.inj hwindow)
        have hin : system.Visible deopt.id place :=
          .inr ⟨tid, floor, hregistered, by rw [hmalloc]; rfl, hfloor⟩
        have hstored := hkept hpage ⟨deopt.id, place, hin, hvalue⟩ hstored
        obtain ⟨rfl, rfl⟩ :=
          hok.pages.unique hpage hvisible hin hstored hvalue
        exact ⟨rfl, (List.getElem?_eq_some_iff.mp hvalue).1⟩
    · refine (hok.calls tid).frame rfl rfl rfl (fun h => h) rfl le_rfl
        (hother _ heq) fun deopt hthread site position hvisible hstored => ?_
      have hpage := ((hok.calls tid).reverted deopt hthread).1
      exact ⟨hvisible,
        hkept hpage (hok.inSight_of_reverted hthread) hstored⟩
  · constructor
    · intro left position right other page hpage hleft hright hstoredLeft
        hstoredRight
      rcases stored_storing.mp hstoredLeft with hold | ⟨hid, hplace, hfn⟩ <;>
        rcases stored_storing.mp hstoredRight with hsame | ⟨hid', hplace', hfn'⟩
      · exact hok.pages.unique hpage hleft hright hold hsame
      · obtain rfl := hfn'
        exact absurd ⟨_, _, hleft, hold⟩ (hunseen hpage).2.2.1
      · obtain rfl := hfn
        exact absurd ⟨_, _, hright, hsame⟩ (hunseen hpage).2.2.1
      · exact ⟨hid.trans hid'.symm, hplace.trans hplace'.symm⟩
    · rintro page hpage ⟨site, position, hvisible, hstored⟩
      rcases stored_storing.mp hstored with hold | ⟨-, -, rfl⟩
      · exact hok.pages.mapped hpage ⟨site, position, hvisible, hold⟩
      · exact (hunseen hpage).2.1
    · intro site position page hpage hle hstored hretires
      rcases stored_storing.mp hstored with hold | ⟨-, -, rfl⟩
      · exact hok.pages.exposed hpage hle hold (hretired page hretires)
      · exact (hunseen hpage).2.2.2 (hretired page hretires)
    · intro tid site floor position page hpage htid hwindow hfloor hstored
      rcases stored_storing.mp hstored with hold | ⟨-, -, rfl⟩
      · exact hok.pages.spared hpage htid hwindow hfloor hold
      · intro entry hentry hname
        exact absurd (.inr (.inr (List.mem_map.mpr ⟨entry, hentry, hname⟩)))
          (hunseen hpage).2.2.2
    · intro site page hstore hpage
      by_cases heq : 0 = call
      · rw [← heq] at hstore
        dsimp only [storing, InlineCache.State.setUpdate] at hstore
        rw [Function.update_self] at hstore
        cases hstore
      · dsimp only at hstore
        rw [hother 0 heq] at hstore
        obtain ⟨hmapped, hfresh, hlive⟩ := hok.pages.storing hstore hpage
        refine ⟨hmapped, ?_, fun h => hlive (hretired page h)⟩
        rintro ⟨place, position, hvisible, hstored⟩
        rcases stored_storing.mp hstored with hold | ⟨-, -, rfl⟩
        · exact hfresh ⟨place, position, hvisible, hold⟩
        · exact heq (hunseen hpage).1.symm
    · intro site hpresent page hmem
      dsimp only [storing] at hpresent hmem
      by_cases hsite : site = id
      · rw [hsite, Function.update_self] at hpresent
        cases hpresent
      · rw [Function.update_of_ne hsite] at hpresent hmem
        exact hok.pages.present hpresent page hmem

/-- The bump that ends an update. -/
def bumping (cache : InlineCache.State) (call id position : ℕ) :
    InlineCache.State :=
  { cache.setUpdate call .idle with
    generation := cache.generation + 1
    settled := Function.update cache.settled id
      (max (cache.settled id) position) }

theorem settled_le_bumping (cache : InlineCache.State)
    (call id position site : ℕ) :
    cache.settled site ≤ (bumping cache call id position).settled site := by
  dsimp only [bumping]
  by_cases hsite : site = id
  · rw [hsite, Function.update_self]
    exact le_max_left _ _
  · rw [Function.update_of_ne hsite]

/-- With the bump of its revert a page can no longer be obtained. -/
theorem Reclaims.bump (hok : Reclaims system) {id position : ℕ}
    (hupdate : system.cache.updates call = .bump id position)
    (hcache : InlineCache.Inv (bumping system.cache call id position)) :
    Reclaims
      { system with cache := bumping system.cache call id position } := by
  have hother : ∀ place, place ≠ call →
      (bumping system.cache call id position).updates place =
        system.cache.updates place := fun place hne =>
    Function.update_of_ne hne _ _
  have hself : (bumping system.cache call id position).updates call = .idle :=
    Function.update_self _ _ _
  have hsettled := settled_le_bumping system.cache call id position
  have hnarrows : Narrows system
      { system with cache := bumping system.cache call id position } :=
    fun _ _ _ htid hwindow => .inl ⟨htid, hwindow⟩
  refine ⟨hcache, fun tid => ?_, ?_⟩
  · by_cases heq : tid + 1 = call
    · subst heq
      refine { hok.calls tid with reverts := ?_, bumps := ?_ }
      · dsimp only
        rw [hself]
        exact fun _ _ => InlineCache.UpdatePc.noConfusion
      · dsimp only
        rw [hself]
        exact fun _ _ => InlineCache.UpdatePc.noConfusion
    · exact (hok.calls tid).frame rfl rfl rfl (fun h => h) rfl le_rfl
        (hother _ heq) fun _ _ _ _ hvisible hstored =>
          ⟨hnarrows.visible hsettled hvisible, hstored⟩
  · refine hok.pages.frame rfl rfl hsettled hnarrows (fun _ hmem _ => hmem)
      ?_ (fun _ _ _ _ => (·)) ?_
    · rintro page (⟨tid, deopt, hthread, hidle, rfl⟩ | hrest)
      · by_cases heq : tid + 1 = call
        · subst heq
          obtain ⟨other, hreverted, hearlier⟩ :=
            (hok.calls tid).bumps id position hupdate
          dsimp only at hthread
          rw [hthread, ThreadPhase.reverted.injEq] at hreverted
          subst hreverted
          refine .inr ⟨hok.inSight_of_reverted hthread, ?_⟩
          intro site place hle hstored
          obtain ⟨rfl, hlt⟩ := hearlier site place
            (.inl ((hsettled site).trans hle)) hstored
          dsimp only [bumping] at hle
          rw [Function.update_self] at hle
          exact absurd ((le_max_right _ _).trans hle) (Nat.not_le.mpr hlt)
        · refine .inl (.inl ⟨tid, deopt, hthread, ?_, rfl⟩)
          rw [← hother _ heq]
          exact hidle
      · exact .inl (.inr hrest)
    · intro site page hstore _
      by_cases heq : 0 = call
      · rw [← heq] at hself hstore
        dsimp only at hstore
        rw [hself] at hstore
        cases hstore
      · rw [← hother 0 heq]
        exact .inl hstore

theorem Reclaims.updateStep (hok : Reclaims system)
    (hstep : system.access (.updateStep call) = some next) :
    Reclaims next := by
  obtain ⟨cache, hcache, rfl⟩ := Option.map_eq_some_iff.mp hstep
  have hinv := hok.cache.step hcache
  rw [InlineCache.step, InlineCache.State.updateStep] at hcache
  split at hcache
  · cases hcache
  · next id fn hupdate =>
      obtain rfl := Option.some.inj hcache
      exact hok.store hupdate hinv
  · next id position hupdate =>
      obtain rfl := Option.some.inj hcache
      exact hok.bump hupdate hinv

end Updates

/-! ## Steps of the deopt machine -/

section Deopts

variable {system next : System} {tid : ℕ}

/-- A step of the background thread. -/
theorem Reclaims.background (hok : Reclaims system) {deopt : State}
    {mapped : List ℕ} (hthread : deopt.thread = system.deopt.thread)
    (hthreads : deopt.threads = system.deopt.threads)
    (hpublished : deopt.threadEpoch = system.deopt.threadEpoch)
    (hepoch : system.deopt.epoch ≤ deopt.epoch)
    (hmapped : ∀ page ∈ system.mapped, page ∉ system.deopt.due →
      page ∈ mapped)
    (hwaiting : ∀ page, page ∈ deopt.outstanding.map DequeuedDeopt.page ∨
        page ∈ deopt.pending.map PendingReclaim.page →
      page ∈ system.deopt.outstanding.map DequeuedDeopt.page ∨
        page ∈ system.deopt.pending.map PendingReclaim.page)
    (hspared : ∀ tid page, tid ∈ system.deopt.threads →
      Spared system.deopt tid page → Spared deopt tid page) :
    Reclaims { system with deopt := deopt, mapped := mapped } := by
  have hnarrows : Narrows system
      { system with deopt := deopt, mapped := mapped } := by
    intro other id floor hmem hwindow
    rw [hthreads] at hmem
    exact .inl ⟨hmem, hwindow⟩
  have hretired : ∀ page,
      { system with deopt := deopt, mapped := mapped : System }.Retired page →
        system.Retired page := by
    rintro page (⟨other, handled, hin, hidle, hname⟩ | hrest)
    · rw [hthread] at hin
      exact .inl ⟨other, handled, hin, hidle, hname⟩
    · exact .inr (hwaiting page hrest)
  refine ⟨hok.cache, fun other => ?_, ?_⟩
  · exact (hok.calls other).frame rfl rfl (by rw [hthread])
      (fun hmem => by rwa [hthreads]) (by rw [hpublished]) hepoch rfl
      fun _ _ _ _ hvisible hstored =>
        ⟨hnarrows.visible (fun _ => le_rfl) hvisible, hstored⟩
  · exact hok.pages.frame rfl rfl (fun _ => le_rfl) hnarrows hmapped
      (fun page h => .inl (hretired page h))
      (fun other page hmem _ => hspared other page hmem)
      fun _ _ hstore _ => .inl hstore

/-- A thread that moves outside a revert, perhaps queueing its deopt. -/
theorem Reclaims.setThread (hok : Reclaims system) {phase : ThreadPhase}
    {queue : List DequeuedDeopt} {threadEpoch : ℕ → ℕ} {call : ℕ → CallPhase}
    (hphase : ∀ deopt, phase ≠ .reverted deopt)
    (hupdate : system.cache.updates (tid + 1) = .idle)
    (hloaded : ∀ epoch, phase = .loaded epoch → epoch ≤ system.deopt.epoch)
    (hqueue : ∀ deopt ∈ queue, deopt ∈ system.deopt.queue ∨
      system.deopt.thread tid = .reverted deopt)
    (hpublished : ∀ other, other ≠ tid →
      threadEpoch other = system.deopt.threadEpoch other)
    (hle : threadEpoch tid ≤ system.deopt.epoch)
    (hwindow : windowOf (system.cache.mallocs tid) ≠ none →
      threadEpoch tid = system.deopt.threadEpoch tid)
    (hcalls : ∀ other, other ≠ tid → call other = system.call other)
    (hidle : (call tid = .outside ∨ ∃ id, call tid = .marking id) →
      system.cache.mallocs tid = .idle) :
    Reclaims { system with
      call := call
      deopt := { system.deopt.goto tid phase with
        queue := queue
        threadEpoch := threadEpoch } } := by
  have hthread : ∀ other deopt,
      Function.update system.deopt.thread tid phase other = .reverted deopt →
        system.deopt.thread other = .reverted deopt :=
    fun _ _ => reverted_of_update hphase
  refine ⟨hok.cache, fun other => ?_, ?_⟩
  · by_cases heq : other = tid
    · subst heq
      have hbefore := hok.calls other
      constructor
      · exact hidle
      · intro deopt hreverted
        dsimp only [State.goto] at hreverted
        rw [Function.update_self] at hreverted
        exact absurd hreverted (hphase deopt)
      · intro epoch hepoch
        dsimp only [State.goto] at hepoch
        rw [Function.update_self] at hepoch
        exact hloaded epoch hepoch
      · exact hle
      · exact hbefore.unregistered
      · dsimp only
        rw [hupdate]
        exact fun _ _ => InlineCache.UpdatePc.noConfusion
      · dsimp only
        rw [hupdate]
        exact fun _ _ => InlineCache.UpdatePc.noConfusion
    · exact (hok.calls other).frame (hcalls other heq) rfl
        (Function.update_of_ne heq _ _) (fun h => h) (hpublished other heq)
        le_rfl rfl fun _ _ _ _ hvisible hstored => ⟨hvisible, hstored⟩
  · refine hok.pages.frame rfl rfl (fun _ => le_rfl)
      (fun _ _ _ hmem hopen => .inl ⟨hmem, hopen⟩) (fun _ hmem _ => hmem)
      (fun page hretired => .inl ?_) ?_ fun _ _ hstore _ => .inl hstore
    · rcases hretired with ⟨other, deopt, hin, hquiet, hname⟩ | hout | hpending
      · exact .inl ⟨other, deopt, hthread other deopt hin, hquiet, hname⟩
      · obtain ⟨deopt, hmem, rfl⟩ := List.mem_map.mp hout
        rcases List.mem_append.mp hmem with hhand | hqueued
        · exact .inr (.inl (List.mem_map_of_mem (List.mem_append_left _ hhand)))
        · rcases hqueue deopt hqueued with hold | hreverted
          · exact .inr (.inl
              (List.mem_map_of_mem (List.mem_append_right _ hold)))
          · exact .inl ⟨tid, deopt, hreverted, hupdate, rfl⟩
      · exact .inr (.inr hpending)
    · intro other page _ hopen hspared entry hentry hname
      refine ⟨?_, (hspared entry hentry hname).2⟩
      dsimp only
      by_cases heq : other = tid
      · subst heq
        rw [hwindow hopen]
        exact (hspared entry hentry hname).1
      · rw [hpublished other heq]
        exact (hspared entry hentry hname).1

/-- A thread outside `handle` has no revert on its way. -/
theorem Reclaims.update_idle (hok : Reclaims system)
    (hthread : ∀ deopt, system.deopt.thread tid ≠ .reverted deopt) :
    system.cache.updates (tid + 1) = .idle := by
  cases hupdate : system.cache.updates (tid + 1) with
  | idle => rfl
  | store id fn =>
      obtain ⟨-, deopt, hreverted, -⟩ :=
        (hok.calls tid).reverts id fn hupdate
      exact absurd hreverted (hthread deopt)
  | bump id position =>
      obtain ⟨deopt, hreverted, -⟩ :=
        (hok.calls tid).bumps id position hupdate
      exact absurd hreverted (hthread deopt)

theorem Reclaims.register (hok : Reclaims system)
    (hstep : system.register tid = some next) : Reclaims next := by
  rw [System.register] at hstep
  split at hstep
  · next id hmarking =>
      obtain ⟨deopt, hdeopt, rfl⟩ := Option.map_eq_some_iff.mp hstep
      rw [State.register] at hdeopt
      split at hdeopt
      · obtain rfl := Option.some.inj hdeopt
        have hidle := (hok.calls tid).idle (.inr ⟨id, hmarking⟩)
        have hnarrows : Narrows system { system with
            deopt := { system.deopt with
              threads := tid :: system.deopt.threads } } := by
          intro other site floor hmem hwindow
          rcases List.mem_cons.mp hmem with rfl | hold
          · dsimp only at hwindow
            rw [hidle] at hwindow
            cases hwindow
          · exact .inl ⟨hold, hwindow⟩
        refine ⟨hok.cache, fun other => ?_, ?_⟩
        · exact (hok.calls other).frame rfl rfl rfl (List.mem_cons_of_mem _)
            rfl le_rfl rfl fun _ _ _ _ hvisible hstored =>
              ⟨hnarrows.visible (fun _ => le_rfl) hvisible, hstored⟩
        · exact hok.pages.frame rfl rfl (fun _ => le_rfl) hnarrows
            (fun _ hmem _ => hmem) (fun _ h => .inl h) (fun _ _ _ _ h => h)
            fun _ _ hstore _ => .inl hstore
      · cases hdeopt
  · cases hstep

theorem Reclaims.loadEpoch (hok : Reclaims system)
    (hstep : system.loadEpoch tid = some next) : Reclaims next := by
  rw [System.loadEpoch] at hstep
  split at hstep
  · obtain ⟨deopt, hdeopt, rfl⟩ := Option.map_eq_some_iff.mp hstep
    rw [State.loadEpoch] at hdeopt
    split at hdeopt
    · next hthread =>
        obtain rfl := Option.some.inj hdeopt
        have hnone : ∀ deopt, system.deopt.thread tid ≠ .reverted deopt := by
          intro deopt
          rw [hthread.1]
          exact ThreadPhase.noConfusion
        refine hok.setThread (fun _ => ThreadPhase.noConfusion)
          (hok.update_idle hnone) ?_
          (fun _ => .inl) (fun _ _ => rfl) (hok.calls tid).epoch_le
          (fun _ => rfl) (fun _ _ => rfl) (hok.calls tid).idle
        intro epoch hepoch
        exact (ThreadPhase.loaded.inj hepoch).symm.le
    · cases hdeopt
  · cases hstep

theorem Reclaims.storeEpoch (hok : Reclaims system)
    (hstep : system.storeEpoch tid = some next) : Reclaims next := by
  rw [System.storeEpoch] at hstep
  split at hstep
  · next id hmarking =>
      obtain ⟨deopt, hdeopt, henter⟩ := Option.bind_eq_some_iff.mp hstep
      rw [State.storeEpoch] at hdeopt
      split at hdeopt
      · next epoch hthread =>
          obtain rfl := Option.some.inj hdeopt
          have hnone : ∀ deopt, system.deopt.thread tid ≠ .reverted deopt := by
            intro deopt
            rw [hthread]
            exact ThreadPhase.noConfusion
          have hidle := (hok.calls tid).idle (.inr ⟨id, hmarking⟩)
          have hresting : Reclaims { system with
              call := Function.update system.call tid .running
              deopt := { system.deopt.goto tid .outside with
                threadEpoch :=
                  Function.update system.deopt.threadEpoch tid epoch } } := by
            refine hok.setThread (fun _ => ThreadPhase.noConfusion)
              (hok.update_idle hnone) (fun _ => ThreadPhase.noConfusion) (fun _ => .inl)
              (fun other heq => Function.update_of_ne heq _ _) ?_ ?_
              (fun other heq => Function.update_of_ne heq _ _) ?_
            · rw [Function.update_self]
              exact (hok.calls tid).loaded epoch hthread
            · rw [hidle]
              exact fun h => absurd rfl h
            · exact fun _ => hidle
          exact hresting.enter (Function.update_self _ _ _) henter
      · cases hdeopt
  · cases hstep

theorem Reclaims.malloc (hok : Reclaims system) {id : CallSiteID}
    (hstep : system.malloc tid id = some next) : Reclaims next := by
  rw [System.malloc] at hstep
  split at hstep
  · next hcall =>
      have hidle := (hok.calls tid).idle (.inl hcall)
      have hnone : ∀ deopt, system.deopt.thread tid ≠ .reverted deopt := by
        intro deopt hreverted
        obtain ⟨-, hrunning, -⟩ := (hok.calls tid).reverted deopt hreverted
        rw [hcall] at hrunning
        cases hrunning
      dsimp only at hstep
      split at hstep
      · obtain rfl := Option.some.inj hstep
        exact hok.goto _ (fun _ => hidle) fun deopt h => absurd h (hnone deopt)
      · have hrunning : Reclaims { system.goto tid .running with
            counter := Function.update system.counter tid
              (system.counter tid + 1) } :=
          hok.goto _ (fun _ => hidle) fun _ _ => rfl
        exact hrunning.enter (Function.update_self _ _ _) hstep
  · cases hstep

theorem Reclaims.enqueue (hok : Reclaims system)
    (hstep : system.enqueue tid = some next) : Reclaims next := by
  rw [System.enqueue] at hstep
  split at hstep
  · next hupdate =>
      obtain ⟨deopt, hdeopt, rfl⟩ := Option.map_eq_some_iff.mp hstep
      rw [State.enqueue] at hdeopt
      split at hdeopt
      · next handled hthread =>
          obtain rfl := Option.some.inj hdeopt
          refine hok.setThread (fun _ => ThreadPhase.noConfusion) hupdate
            (fun _ => ThreadPhase.noConfusion) ?_ (fun _ _ => rfl) (hok.calls tid).epoch_le
            (fun _ => rfl) (fun other heq => Function.update_of_ne heq _ _) ?_
          · intro queued hmem
            split at hmem
            · rcases List.mem_append.mp hmem with hold | hnew
              · exact .inl hold
              · exact .inr (List.mem_singleton.mp hnew ▸ hthread)
            · exact .inl hmem
          · rw [Function.update_self]
            rintro (hout | ⟨id, hmarking⟩)
            · cases hout
            · cases hmarking
      · cases hdeopt
  · cases hstep

/-- A site with a routine in its history is present in the table. -/
theorem Reclaims.present_of_holds (hok : Reclaims system) {id floor page : ℕ}
    (hpage : page ≠ 0) (hmalloc : system.cache.mallocs tid = .call id floor page) :
    system.cache.present id = true := by
  have hhad := hok.cache.malloc tid
  rw [hmalloc] at hhad
  obtain ⟨position, -, hstored⟩ := hhad
  rw [← Bool.not_eq_false]
  intro habsent
  exact hpage (hok.pages.present habsent page (List.mem_of_getElem? hstored))

/-- `handle` is called from the page and begins its revert. -/
theorem Reclaims.handle (hok : Reclaims system) {id floor page : ℕ}
    {reason : DeoptReason} {dispatch : Table}
    (hcall : system.call tid = .running)
    (hmalloc : system.cache.mallocs tid = .call id floor page)
    (hpage : page ≠ 0) (hthread : system.deopt.thread tid = .outside)
    (hcache : InlineCache.Inv
      (system.cache.setUpdate (tid + 1) (.store id 0))) :
    Reclaims { system with
      deopt := { system.deopt.goto tid (.reverted ⟨id, page, reason⟩) with
        dispatch := dispatch }
      cache := system.cache.setUpdate (tid + 1) (.store id 0) } := by
  have hself : (system.cache.setUpdate (tid + 1) (.store id 0)).updates
      (tid + 1) = .store id 0 := Function.update_self _ _ _
  have hother : ∀ place, place ≠ tid + 1 →
      (system.cache.setUpdate (tid + 1) (.store id 0)).updates place =
        system.cache.updates place := fun place hne =>
    Function.update_of_ne hne _ _
  refine ⟨hcache, fun other => ?_, ?_⟩
  · by_cases heq : other = tid
    · subst heq
      have hbefore := hok.calls other
      constructor
      · exact hbefore.idle
      · intro deopt hreverted
        dsimp only [State.goto] at hreverted
        rw [Function.update_self] at hreverted
        obtain rfl := ThreadPhase.reverted.inj hreverted
        exact ⟨hpage, hcall, floor, hmalloc⟩
      · intro epoch hepoch
        dsimp only [State.goto] at hepoch
        rw [Function.update_self] at hepoch
        cases hepoch
      · exact hbefore.epoch_le
      · exact hbefore.unregistered
      · dsimp only
        rw [hself]
        intro site fn hstore
        obtain ⟨rfl, rfl⟩ := InlineCache.UpdatePc.store.inj hstore
        exact ⟨rfl, _, Function.update_self _ _ _, rfl⟩
      · dsimp only
        rw [hself]
        exact fun _ _ => InlineCache.UpdatePc.noConfusion
    · exact (hok.calls other).frame rfl rfl (Function.update_of_ne heq _ _)
        (fun h => h) rfl le_rfl
        (hother _ fun hsame => heq (Nat.succ.inj hsame))
        fun _ _ _ _ hvisible hstored => ⟨hvisible, hstored⟩
  · refine hok.pages.frame rfl rfl (fun _ => le_rfl)
      (fun _ _ _ hmem hopen => .inl ⟨hmem, hopen⟩) (fun _ hmem _ => hmem)
      (fun page hretired => .inl ?_) (fun _ _ _ _ h => h)
      fun site page hstore _ => .inl ?_
    · rcases hretired with ⟨other, deopt, hin, hquiet, hname⟩ | hrest
      · by_cases heq : other = tid
        · rw [heq] at hquiet
          dsimp only at hquiet
          rw [hself] at hquiet
          cases hquiet
        · dsimp only [State.goto] at hin hquiet
          rw [Function.update_of_ne heq] at hin
          rw [hother _ fun hsame => heq (Nat.succ.inj hsame)] at hquiet
          exact .inl ⟨other, deopt, hin, hquiet, hname⟩
      · exact .inr hrest
    · dsimp only at hstore
      rw [hother 0 (Nat.succ_ne_zero tid).symm] at hstore
      exact hstore

theorem Reclaims.guardFails (hok : Reclaims system) {reason : DeoptReason}
    (hstep : system.guardFails tid reason = some next) : Reclaims next := by
  rw [System.guardFails] at hstep
  split at hstep
  · next id floor page hcall hmalloc =>
      split at hstep
      · next hpage =>
          obtain ⟨deopt, hdeopt, hrest⟩ := Option.bind_eq_some_iff.mp hstep
          rw [State.handle] at hdeopt
          split at hdeopt
          · next hthread =>
              obtain rfl := Option.some.inj hdeopt
              dsimp only at hrest
              split at hrest
              · next henabled =>
                  obtain ⟨cache, hcache, rfl⟩ :=
                    Option.map_eq_some_iff.mp hrest
                  have hinv := hok.cache.step hcache
                  rw [InlineCache.step] at hcache
                  split at hcache
                  · obtain rfl := Option.some.inj hcache
                    dsimp only at hinv ⊢
                    rw [if_pos (hok.present_of_holds hpage hmalloc)] at hinv ⊢
                    exact hok.handle hcall hmalloc hpage hthread hinv
                  · cases hcache
              · obtain rfl := Option.some.inj hrest
                refine hok.goto system.counter ?_ fun deopt hreverted => ?_
                · rintro (hout | ⟨site, hmarking⟩)
                  · cases hout
                  · cases hmarking
                · rw [hthread] at hreverted
                  cases hreverted
          · cases hdeopt
      · cases hstep
  · cases hstep

/-- No page waits between drains that did not wait before, and no scan runs. -/
theorem Reclaims.betweenDrains (hok : Reclaims system) {analyzer : Analyzer}
    {dispatch : Table} (mapped : List ℕ)
    (hbetween : system.deopt.background.betweenDrains = true)
    (hmapped : ∀ page ∈ system.mapped, page ∈ mapped) :
    Reclaims { system with
      deopt := { system.deopt with
        analyzer := analyzer
        dispatch := dispatch
        background := .working }
      mapped := mapped } := by
  refine hok.background rfl rfl rfl le_rfl (fun page hmem _ => hmapped page hmem)
    (fun page hwaits => ?_) fun other page _ hspared entry hentry hname => ?_
  · rwa [outstanding_of_betweenDrains hbetween]
  · exact ⟨(hspared entry hentry hname).1, fun _ _ => Background.noConfusion⟩

/-- An install begins with a page that was not mapped before. -/
theorem Reclaims.install (hok : Reclaims system) {id page : ℕ}
    (hcache : InlineCache.Inv (system.cache.setUpdate 0 (.store id page)))
    (hmapped : page ∈ system.mapped) (hunseen : ¬system.InSight page)
    (hfresh : ¬system.Retired page) :
    Reclaims { system with
      cache := system.cache.setUpdate 0 (.store id page) } := by
  have hother : ∀ tid, (system.cache.setUpdate 0 (.store id page)).updates
      (tid + 1) = system.cache.updates (tid + 1) := by
    intro tid
    dsimp only [InlineCache.State.setUpdate]
    rw [Function.update_of_ne (Nat.succ_ne_zero tid)]
  have hretired : ∀ other, { system with
      cache := system.cache.setUpdate 0 (.store id page) : System }.Retired
        other → system.Retired other := by
    rintro other (⟨tid, deopt, hthread, hidle, hname⟩ | hrest)
    · refine .inl ⟨tid, deopt, hthread, ?_, hname⟩
      rw [← hother]
      exact hidle
    · exact .inr hrest
  refine ⟨hcache, fun tid => ?_, ?_⟩
  · exact (hok.calls tid).frame rfl rfl rfl (fun h => h) rfl le_rfl
      (hother tid) fun _ _ _ _ hvisible hstored => ⟨hvisible, hstored⟩
  · refine { hok.pages with exposed := ?_, storing := ?_ }
    · exact fun hne hle hstored hretires =>
        hok.pages.exposed hne hle hstored (hretired _ hretires)
    · intro site stored hstore _
      dsimp only [InlineCache.State.setUpdate] at hstore
      rw [Function.update_self] at hstore
      obtain ⟨rfl, rfl⟩ := InlineCache.UpdatePc.store.inj hstore
      exact ⟨hmapped, hunseen, fun h => hfresh (hretired _ h)⟩

theorem Reclaims.event (hok : Reclaims system) {knobs : Knobs}
    {segSite : Option ℕ} {ev : AllocEvent} {compile : RoutineSpec → Option ℕ}
    (hfresh : ∀ page, system.mappedBy knobs segSite ev compile = some page →
      page ∉ system.deopt.outstanding.map DequeuedDeopt.page ∧
        page ∉ system.deopt.pending.map PendingReclaim.page)
    (hstep : system.event knobs segSite ev compile = some next) :
    Reclaims next := by
  rw [System.event] at hstep
  split at hstep
  · next hidle =>
      obtain ⟨deopt, hdeopt, hrest⟩ := Option.bind_eq_some_iff.mp hstep
      rw [State.event] at hdeopt
      split at hdeopt
      · next hbetween =>
          dsimp only at hdeopt hrest
          split at hrest
          · next spec page hcompiled =>
              rw [hcompiled] at hdeopt
              obtain ⟨dispatch, -, rfl⟩ := Option.map_eq_some_iff.mp hdeopt
              obtain ⟨houtstanding, hpending⟩ := hfresh page (by
                rw [System.mappedBy, hcompiled, Option.bind_some])
              split at hrest
              · cases hrest
              · next hunmapped =>
                  obtain ⟨hpage, hnew⟩ := not_or.mp hunmapped
                  obtain ⟨cache, hcache, rfl⟩ := Option.map_eq_some_iff.mp hrest
                  have hunseen : ¬system.InSight page := fun hsight =>
                    hnew (hok.pages.mapped hpage hsight)
                  have hinv := hok.cache.step hcache
                  rw [InlineCache.step] at hcache
                  dsimp only at hcache
                  rw [if_pos hidle] at hcache
                  obtain rfl := Option.some.inj hcache
                  refine (hok.betweenDrains (page :: system.mapped) hbetween
                    fun _ => List.mem_cons_of_mem _).install hinv
                    List.mem_cons_self hunseen ?_
                  rintro (⟨tid, handled, hthread, -, rfl⟩ | hwaits | hwaits)
                  · exact hunseen (hok.inSight_of_reverted hthread)
                  · rw [outstanding_of_betweenDrains hbetween] at houtstanding
                    exact houtstanding hwaits
                  · exact hpending hwaits
          · next hnone =>
              obtain rfl := Option.some.inj hrest
              split at hdeopt
              · next spec page hcompiled => exact absurd hcompiled (hnone _ _)
              · obtain rfl := Option.some.inj hdeopt
                exact hok.betweenDrains system.mapped hbetween fun _ h => h
      · cases hdeopt
  · cases hstep

/-- A step of the drain, which unmaps what is due. -/
theorem Reclaims.drained (hok : Reclaims system) {deopt : State}
    (hthread : deopt.thread = system.deopt.thread)
    (hthreads : deopt.threads = system.deopt.threads)
    (hpublished : deopt.threadEpoch = system.deopt.threadEpoch)
    (hepoch : system.deopt.epoch ≤ deopt.epoch)
    (hwaiting : ∀ page, page ∈ deopt.outstanding.map DequeuedDeopt.page ∨
        page ∈ deopt.pending.map PendingReclaim.page →
      page ∈ system.deopt.outstanding.map DequeuedDeopt.page ∨
        page ∈ system.deopt.pending.map PendingReclaim.page)
    (hspared : ∀ tid page, tid ∈ system.deopt.threads →
      Spared system.deopt tid page → Spared deopt tid page) :
    Reclaims { system with
      deopt := deopt
      mapped := system.mapped.filter fun page => page ∉ system.deopt.due } :=
  hok.background hthread hthreads hpublished hepoch
    (fun _ hmem hdue => List.mem_filter.mpr ⟨hmem, decide_eq_true hdue⟩)
    hwaiting hspared

/-- While no scan runs, only the epochs matter. -/
theorem Spared.unscanned {state after : State} {tid page : ℕ}
    (hspared : Spared state tid page) (hpending : after.pending = state.pending)
    (hpublished : after.threadEpoch = state.threadEpoch)
    (hbackground : ∀ rest minEpoch, after.background ≠ .scanning rest minEpoch) :
    Spared after tid page := by
  intro entry hentry hname
  rw [hpending] at hentry
  rw [hpublished]
  exact ⟨(hspared entry hentry hname).1,
    fun rest minEpoch h => absurd h (hbackground rest minEpoch)⟩

theorem Reclaims.drain (hok : Reclaims system) {deopt : State}
    (hdeopt : system.deopt.drain = some deopt) :
    Reclaims { system with
      deopt := deopt
      mapped := system.mapped.filter fun page => page ∉ system.deopt.due } := by
  rw [State.drain] at hdeopt
  split at hdeopt
  · next hbetween =>
      obtain rfl := Option.some.inj hdeopt
      refine hok.drained rfl rfl rfl le_rfl (fun page h => ?_)
        fun _ _ _ hspared => hspared.unscanned rfl rfl fun _ _ => Background.noConfusion
      rwa [outstanding_of_betweenDrains hbetween]
  · cases hdeopt

theorem Reclaims.pop (hok : Reclaims system) {deopt : State}
    (hdeopt : system.deopt.pop = some deopt) :
    Reclaims { system with
      deopt := deopt
      mapped := system.mapped.filter fun page => page ∉ system.deopt.due } := by
  rw [State.pop] at hdeopt
  split at hdeopt
  · next hpopping =>
      have houtstanding : system.deopt.outstanding = system.deopt.queue := by
        rw [State.outstanding, hpopping]
        rfl
      split at hdeopt
      · next hqueue =>
          obtain rfl := Option.some.inj hdeopt
          refine hok.drained rfl rfl rfl le_rfl (fun page h => ?_)
            fun _ _ _ hspared => hspared.unscanned rfl rfl fun _ _ => ?_
          · rw [houtstanding]
            dsimp only [State.outstanding] at h
            split at h <;> exact h
          · dsimp only
            split <;> exact Background.noConfusion
      · next handled rest hqueue =>
          obtain rfl := Option.some.inj hdeopt
          refine hok.drained rfl rfl rfl le_rfl (fun page h => ?_)
            fun _ _ _ hspared => hspared.unscanned rfl rfl fun _ _ => Background.noConfusion
          rw [houtstanding, hqueue]
          exact h
  · cases hdeopt

/-- A page comes to the list with the global epoch, which no thread's exceeds. -/
theorem Reclaims.reset (hok : Reclaims system) {knobs : Knobs} {deopt : State}
    (hdeopt : system.deopt.reset knobs = some deopt) :
    Reclaims { system with
      deopt := deopt
      mapped := system.mapped.filter fun page => page ∉ system.deopt.due } := by
  rw [State.reset] at hdeopt
  split at hdeopt
  · next handled hhand =>
      obtain rfl := Option.some.inj hdeopt
      refine hok.drained rfl rfl rfl (Nat.le_succ _) (fun page h => ?_)
        fun tid page _ hspared entry hentry hname => ?_
      · rw [State.outstanding, hhand]
        dsimp only [State.outstanding] at h
        rcases h with hout | hpending
        · obtain ⟨waiting, hmem, rfl⟩ := List.mem_map.mp hout
          exact .inl (List.mem_map_of_mem (List.mem_cons_of_mem _ hmem))
        · split at hpending
          · rw [List.map_append] at hpending
            rcases List.mem_append.mp hpending with hold | hnew
            · exact .inr hold
            · obtain rfl := List.mem_singleton.mp hnew
              exact .inl List.mem_cons_self
          · exact .inr hpending
      · refine ⟨?_, fun _ _ => Background.noConfusion⟩
        dsimp only at hentry ⊢
        split at hentry
        · rcases List.mem_append.mp hentry with hold | hnew
          · exact (hspared entry hold hname).1
          · obtain rfl := List.mem_singleton.mp hnew
            exact (hok.calls tid).epoch_le
        · exact (hspared entry hentry hname).1
  · cases hdeopt

/-- The scan starts with every registered thread ahead of it. -/
theorem Reclaims.scan (hok : Reclaims system) {deopt : State}
    (hdeopt : system.deopt.scan = some deopt) :
    Reclaims { system with
      deopt := deopt
      mapped := system.mapped.filter fun page => page ∉ system.deopt.due } := by
  rw [State.scan] at hdeopt
  split at hdeopt
  · next hemptied =>
      obtain rfl := Option.some.inj hdeopt
      refine hok.drained rfl rfl rfl le_rfl (fun page h => ?_)
        fun tid page htid hspared entry hentry hname => ?_
      · rw [State.outstanding, hemptied]
        exact h
      · refine ⟨(hspared entry hentry hname).1, fun rest least h => ?_⟩
        obtain ⟨rfl, rfl⟩ := Background.scanning.inj h
        exact .inl htid
  · cases hdeopt

/-- A thread that was passed has lowered the minimum to its own epoch. -/
theorem Reclaims.visit (hok : Reclaims system) {deopt : State}
    (hdeopt : system.deopt.visit = some deopt) :
    Reclaims { system with
      deopt := deopt
      mapped := system.mapped.filter fun page => page ∉ system.deopt.due } := by
  rw [State.visit] at hdeopt
  split at hdeopt
  · next visited rest least hscanning =>
      obtain rfl := Option.some.inj hdeopt
      refine hok.drained rfl rfl rfl le_rfl (fun page h => ?_)
        fun tid page _ hspared entry hentry hname => ?_
      · rw [State.outstanding, hscanning]
        exact h
      · obtain ⟨hpublished, hscan⟩ := hspared entry hentry hname
        refine ⟨hpublished, fun left lower h => ?_⟩
        obtain ⟨rfl, rfl⟩ := Background.scanning.inj h
        rcases hscan _ _ hscanning with hmem | hle
        · rcases List.mem_cons.mp hmem with rfl | hlater
          · exact .inr ((min_le_right _ _).trans hpublished)
          · exact .inl hlater
        · exact .inr ((min_le_left _ _).trans hle)
  · next least hscanning =>
      obtain rfl := Option.some.inj hdeopt
      refine hok.drained rfl rfl rfl le_rfl (fun page h => ?_)
        fun tid page _ hspared entry hentry hname => ?_
      · rw [State.outstanding, hscanning]
        refine h.imp_right fun hpending => ?_
        exact (List.filter_sublist.map _).subset hpending
      · have hold := (List.mem_filter.mp hentry).1
        exact ⟨(hspared entry hold hname).1, fun _ _ => Background.noConfusion⟩
  · cases hdeopt

theorem Reclaims.drainStep (hok : Reclaims system) {knobs : Knobs}
    {action : Action} (hstep : system.drainStep knobs action = some next) :
    Reclaims next := by
  rw [System.drainStep] at hstep
  split at hstep
  · next hdrains =>
      obtain ⟨deopt, hdeopt, rfl⟩ := Option.map_eq_some_iff.mp hstep
      cases action with
      | drain => exact hok.drain hdeopt
      | pop => exact hok.pop hdeopt
      | reset => exact hok.reset hdeopt
      | scan => exact hok.scan hdeopt
      | visit => exact hok.visit hdeopt
      | _ => cases hdrains.1
  · cases hstep

theorem Reclaims.step (hok : Reclaims system) {knobs : Knobs}
    {action : System.Action} (hregistered : system.Registered knobs action)
    (hstep : system.step knobs action = some next) : Reclaims next := by
  cases action with
  | malloc tid id => exact hok.malloc hstep
  | register tid => exact hok.register hstep
  | loadEpoch tid => exact hok.loadEpoch hstep
  | storeEpoch tid => exact hok.storeEpoch hstep
  | prologue tid => exact hok.prologue hregistered hstep
  | guardFails tid reason => exact hok.guardFails hstep
  | revertStep tid =>
      simp only [System.step, System.revertStep] at hstep
      split at hstep
      · exact hok.updateStep hstep
      · cases hstep
  | enqueue tid => exact hok.enqueue hstep
  | leave tid => exact hok.leave hstep
  | setEnabled on =>
      obtain rfl := Option.some.inj hstep
      exact hok.background rfl rfl rfl le_rfl (fun _ hmem _ => hmem)
        (fun _ h => h) fun _ _ _ h => h
  | event segSite ev compile => exact hok.event hregistered hstep
  | installStep => exact hok.updateStep hstep
  | drainStep action => exact hok.drainStep hstep

end Deopts

/-! ## Every run -/

theorem reclaims_initial : Reclaims .initial where
  cache := InlineCache.inv_initial
  calls := fun tid => by
    constructor
    · exact fun _ => rfl
    · exact fun _ => ThreadPhase.noConfusion
    · exact fun _ => ThreadPhase.noConfusion
    · exact le_rfl
    · exact fun _ => rfl
    · exact fun _ _ => InlineCache.UpdatePc.noConfusion
    · exact fun _ _ => InlineCache.UpdatePc.noConfusion
  pages := by
    have hstored : ∀ {id position page}, page ≠ 0 →
        ¬System.Stored .initial id position page := by
      intro id position page hpage hstored
      have hmem : page ∈ [0] := List.mem_of_getElem? hstored
      exact hpage (List.mem_singleton.mp hmem)
    constructor
    · exact fun hpage _ _ hleft _ => absurd hleft (hstored hpage)
    · rintro page hpage ⟨id, position, -, hvalue⟩
      exact absurd hvalue (hstored hpage)
    · exact fun hpage _ hvalue => absurd hvalue (hstored hpage)
    · exact fun hpage _ _ _ hvalue => absurd hvalue (hstored hpage)
    · exact InlineCache.UpdatePc.noConfusion
    · exact fun _ page hmem => List.mem_singleton.mp hmem

/-- In a run in which every thread that obtains a routine is registered, and no
page is mapped where an earlier deopt is still to be reclaimed, no page is
reclaimed while a thread holds it. -/
theorem safe_reachable {knobs : Knobs} {system : System}
    (hreach : ReachableWhen (System.step knobs) (System.Registered knobs) .initial
      system) : system.Safe := by
  have hok : Reclaims system := hreach.invariant reclaims_initial
    fun _ _ _ hok hregistered hstep => hok.step hregistered hstep
  exact hok.safe

/-- `Registered`, decided. -/
def isRegistered (knobs : Knobs) (system : System) : System.Action → Bool
  | .prologue tid => decide (system.obtains tid = 0) ||
      decide (tid ∈ system.deopt.threads)
  | .event segSite ev compile =>
      match system.mappedBy knobs segSite ev compile with
      | some page =>
          decide (page ∉ system.deopt.outstanding.map DequeuedDeopt.page) &&
            decide (page ∉ system.deopt.pending.map PendingReclaim.page)
      | none => true
  | _ => true

theorem registered_of_check {knobs : Knobs} {system : System}
    {action : System.Action} (hcheck : isRegistered knobs system action = true) :
    system.Registered knobs action := by
  cases action with
  | prologue tid =>
      intro hobtains
      rw [isRegistered, Bool.or_eq_true, decide_eq_true_eq,
        decide_eq_true_eq] at hcheck
      exact hcheck.resolve_left hobtains
  | event segSite ev compile =>
      intro page hpage
      rw [isRegistered, hpage, Bool.and_eq_true, decide_eq_true_eq,
        decide_eq_true_eq] at hcheck
      exact hcheck
  | _ => trivial

/-- Site 7 allocates, and what is compiled for it is put at page 4096. -/
def allocates16 : System.Action :=
  .event none ⟨7, 16, 1, 16⟩ fun _ => some 4096

/-- Site 7 specializes and its routine is installed. -/
def installs : List System.Action :=
  List.flatten [List.replicate 12 allocates16, [.installStep, .installStep]]

/-- A call that obtains a routine by a lookup. -/
def looksUp (tid : ℕ) : List System.Action :=
  [.malloc tid 7, .prologue tid, .prologue tid, .prologue tid]

/-- A guard fails, and the thread calls `handle`. -/
def deopts (tid : ℕ) : List System.Action :=
  [.guardFails tid .sizeDrift, .revertStep tid, .revertStep tid, .enqueue tid]

/-- The drain answers one deopt and begins to scan. -/
def drains : List System.Action :=
  [.drainStep .drain, .drainStep .pop, .drainStep .reset, .drainStep .pop,
    .drainStep .scan]

/-- A thread looks up a site without a routine, and 30 times finds its answer in
its cache. -/
def thirtyOneCalls (tid : ℕ) : List System.Action :=
  looksUp tid ++ [.leave tid] ++
    (List.replicate 30 [.malloc tid 7, .prologue tid, .leave tid]).flatten

/-- In its 32nd call a thread registers and obtains a routine, whose guard
fails.  The page is kept while the thread is in it. -/
def keptInUse : List System.Action :=
  List.flatten [thirtyOneCalls 1, installs,
    [.malloc 1 7, .register 1, .loadEpoch 1, .storeEpoch 1, .prologue 1,
      .prologue 1, .prologue 1], deopts 1, drains, [.drainStep .visit]]

theorem safe_keptInUse :
    ∃ system, run (fun system action =>
        if isRegistered sixEventKnobs system action then
          System.step sixEventKnobs system action else none)
        .initial keptInUse = some system ∧
      system.deopt.pending = [⟨4096, 0⟩] ∧ system.Holds 1 4096 ∧
      system.Safe := by
  have hkept : ((run (fun system action =>
      if isRegistered sixEventKnobs system action then
        System.step sixEventKnobs system action else none)
      .initial keptInUse).any fun system =>
        decide (system.deopt.pending = [⟨4096, 0⟩] ∧
          routineOf (system.cache.mallocs 1) = 4096)) = true := by
    decide +kernel
  obtain ⟨system, hrun, hfacts⟩ := (Option.any_eq_true _ _).mp hkept
  obtain ⟨hpending, hroutine⟩ := of_decide_eq_true hfacts
  exact ⟨system, hrun, hpending, ⟨by decide, hroutine⟩, safe_reachable
    (reachableWhen_of_run (fun _ _ => registered_of_check) .start hrun)⟩

/-- Two threads obtain the routine in their first calls; the guard of one
fails. -/
def firstCalls : List System.Action :=
  List.flatten [installs, looksUp 1, looksUp 2, deopts 1, drains]

/-- The scan finds no thread on the list, and the page is about to be reclaimed
with both threads in it. -/
theorem not_safe_firstCalls :
    ∃ system, Reachable (System.step sixEventKnobs) .initial system ∧
      system.counter 2 = 1 ∧ system.Holds 2 4096 ∧
      4096 ∈ system.deopt.due ∧ ¬system.Safe := by
  have hdue : ((run (System.step sixEventKnobs) .initial firstCalls).any
      fun system => decide (system.counter 2 = 1 ∧
        routineOf (system.cache.mallocs 2) = 4096 ∧
        4096 ∈ system.deopt.due)) = true := by
    decide +kernel
  obtain ⟨system, hrun, hfacts⟩ := (Option.any_eq_true _ _).mp hdue
  obtain ⟨hcounter, hroutine, hmem⟩ := of_decide_eq_true hfacts
  have hholds : system.Holds 2 4096 := ⟨by decide, hroutine⟩
  exact ⟨system, reachable_of_run .start hrun, hcounter, hholds, hmem,
    fun hsafe => (hsafe 2 4096 hholds).1 hmem⟩

end TbjitAlloc.Deopt
