import TbjitAlloc.Analysis.ThreadConcentration
import TbjitAlloc.Analysis.LifetimeTag

/-!
# When the paired pattern is found

The freeing site of a site's pair is chosen by the majority vote over the frees
that pop the site's stack, and a second counter runs beside the lead of the
vote.  The lead never exceeds the pops made from the leading site, so a site is
given a paired stack only when that site popped almost all of its allocations.
The second counter lies between the two until it wraps.
-/

namespace TbjitAlloc.Analysis

open TbjitAlloc.MajorityVote
open TbjitAlloc.Transition

namespace PairCandidate

/-- The vote in a pair. -/
def tally (pair : PairCandidate) : Tally ℕ := ⟨pair.freeSite, pair.pairCount⟩

/-- What a vote does to a pair, the counter of matched frees included. -/
theorem vote_cases (pair : PairCandidate) (site : ℕ) :
    ((pair.pairCount = 0 ∨ site = pair.freeSite) ∧
        pair.vote site =
          ⟨site, (pair.pairCount + 1) % 2 ^ 32, pair.lifoCount⟩) ∨
      (site ≠ pair.freeSite ∧ pair.pairCount = 1 ∧
        pair.vote site = ⟨site, 1, 0⟩) ∨
      (site ≠ pair.freeSite ∧ 1 < pair.pairCount ∧
        pair.vote site =
          ⟨pair.freeSite, pair.pairCount - 1, pair.lifoCount⟩) := by
  rw [vote]
  by_cases hfor : pair.pairCount = 0 ∨ pair.freeSite = site
  · exact .inl ⟨hfor.imp_right Eq.symm, if_pos hfor⟩
  · rw [if_neg hfor]
    obtain ⟨hcount, hother⟩ := not_or.mp hfor
    by_cases hlast : pair.pairCount - 1 = 0
    · exact .inr (.inl ⟨Ne.symm hother, by omega, if_pos hlast⟩)
    · exact .inr (.inr ⟨Ne.symm hother, by omega, if_neg hlast⟩)

theorem tally_vote (pair : PairCandidate) (site : ℕ) :
    (pair.vote site).tally = pair.tally.cast (2 ^ 32) site := by
  rw [Tally.cast]
  rcases vote_cases pair site with
    ⟨hfor, hvote⟩ | ⟨hother, hlast, hvote⟩ | ⟨hother, hmore, hvote⟩
  · rw [hvote]
    exact (if_pos hfor).symm
  · have hagainst : ¬(pair.pairCount = 0 ∨ site = pair.freeSite) :=
      not_or.mpr ⟨by omega, hother⟩
    have hzero : pair.pairCount - 1 = 0 := by omega
    rw [hvote]
    exact ((if_neg hagainst).trans (if_pos hzero)).symm
  · have hagainst : ¬(pair.pairCount = 0 ∨ site = pair.freeSite) :=
      not_or.mpr ⟨by omega, hother⟩
    have hsome : pair.pairCount - 1 ≠ 0 := by omega
    rw [hvote]
    exact ((if_neg hagainst).trans (if_neg hsome)).symm

end PairCandidate

/-! ## The counters against the pops -/

/-- The lead is bounded by the pops made from the leading site; while fewer
than 2³² frees have popped the stack, the other counter lies between. -/
structure PairOk (pair : PairCandidate) (voters : List ℕ) : Prop where
  pairCount_le : pair.pairCount ≤ voters.count pair.freeSite
  counted : voters.length < 2 ^ 32 →
    pair.pairCount ≤ pair.lifoCount ∧
      pair.lifoCount ≤ voters.count pair.freeSite ∧
      (pair.pairCount = 0 → pair.lifoCount = 0)

section Invariant

variable {knobs : Knobs} {summary : CallSiteSummary} {event : AllocEvent}
variable {voters : List ℕ} {pair : PairCandidate}

/-- The vote goes on whether or not the free was matched. -/
theorem tally_freedPair (summary : CallSiteSummary) (event : AllocEvent) :
    (summary.freedPair event).tally =
      summary.topPair.tally.cast (2 ^ 32) event.callSite := by
  rw [← PairCandidate.tally_vote, CallSiteSummary.freedPair]
  split <;> rfl

/-- What a free that pops does to the pair. -/
theorem freedPair_cases (htop : summary.lifoTop event.ptr = true) :
    let pair := summary.topPair
    ((pair.pairCount = 0 ∨ event.callSite = pair.freeSite) ∧
        summary.freedPair event = ⟨event.callSite,
          (pair.pairCount + 1) % 2 ^ 32, (pair.lifoCount + 1) % 2 ^ 32⟩) ∨
      (event.callSite ≠ pair.freeSite ∧ pair.pairCount = 1 ∧
        summary.freedPair event = ⟨event.callSite, 1, 1⟩) ∨
      (event.callSite ≠ pair.freeSite ∧ 1 < pair.pairCount ∧
        summary.freedPair event =
          ⟨pair.freeSite, pair.pairCount - 1, pair.lifoCount⟩) := by
  dsimp only
  rw [CallSiteSummary.freedPair]
  rcases summary.topPair.vote_cases event.callSite with
    ⟨hfor, hvote⟩ | ⟨hother, hlast, hvote⟩ | ⟨hother, hmore, hvote⟩
  · rw [hvote]
    exact .inl ⟨hfor, if_pos ⟨htop, rfl⟩⟩
  · rw [hvote]
    exact .inr (.inl ⟨hother, hlast, if_pos ⟨htop, rfl⟩⟩)
  · rw [hvote]
    exact .inr (.inr ⟨hother, hmore, if_neg fun h => hother h.2.symm⟩)

theorem PairOk.freed (hok : PairOk summary.topPair voters)
    (htop : summary.lifoTop event.ptr = true) :
    PairOk (summary.freedPair event) (voters ++ [event.callSite]) := by
  have hlead : summary.topPair.tally.lead ≤
      voters.count summary.topPair.tally.leader := hok.pairCount_le
  have hcast := Tally.lead_cast_le (2 ^ 32) hlead event.callSite
  rw [← tally_freedPair] at hcast
  refine ⟨hcast, fun hlength => ?_⟩
  rw [List.length_append, List.length_singleton] at hlength
  obtain ⟨hle, hbound, hzero⟩ := hok.counted (by omega)
  have hvoters : voters.count summary.topPair.freeSite ≤ voters.length :=
    List.count_le_length
  have hself : (voters ++ [event.callSite]).count event.callSite =
      voters.count event.callSite + 1 := by
    rw [List.count_append, List.count_singleton_self]
  rcases freedPair_cases htop with
    ⟨hfor, hfreed⟩ | ⟨-, -, hfreed⟩ | ⟨-, hmore, hfreed⟩
  · have hcounted : summary.topPair.lifoCount ≤
        voters.count event.callSite := by
      rcases hfor with hnone | hsame
      · rw [hzero hnone]
        exact Nat.zero_le _
      · exact hsame ▸ hbound
    rw [hfreed, Nat.mod_eq_of_lt (by omega), Nat.mod_eq_of_lt (by omega), hself]
    exact ⟨Nat.succ_le_succ hle, Nat.succ_le_succ hcounted,
      fun hnone => absurd hnone (Nat.succ_ne_zero _)⟩
  · rw [hfreed, hself]
    exact ⟨le_rfl, Nat.le_add_left 1 _, fun hnone => absurd hnone Nat.one_ne_zero⟩
  · have hleft : summary.topPair.pairCount - 1 ≠ 0 := by omega
    rw [hfreed, List.count_append]
    exact ⟨(Nat.sub_le _ _).trans hle, hbound.trans (Nat.le_add_right _ _),
      fun hnone => absurd hnone hleft⟩

/-- The pair of every site is in step with its log. -/
def PairsOk (state : Logged) : Prop :=
  LogsOk state ∧ ∀ id,
    PairOk (state.analyzer.summaryOf id).topPair (state.log id).voters

theorem pairsOk_step {state target : Logged} {op : StreamOp}
    (hok : PairsOk state) (hstep : Logged.step knobs state op = some target) :
    PairsOk target := by
  refine ⟨logsOk_step hok.1 hstep, fun id => ?_⟩
  obtain rfl := Option.some.inj hstep
  rcases Logged.site_cases knobs state op id with
    ⟨hsummary, hlog⟩ |
    ⟨segSite, event, compile, -, -, hsummary, hlog⟩ |
    ⟨segSite, event, compile, -, -, hsummary, htop, hlog⟩ |
    ⟨reason, -, hsummary, hlog⟩
  · rw [hsummary, hlog]
    exact hok.2 id
  · rw [hsummary, hlog,
      (CallSiteSummary.sameBooks_processAlloc _ _ _ _).topPair]
    exact hok.2 id
  · rw [hsummary, hlog]
    cases segSite with
    | some site =>
        rw [Option.isSome_some, observeFree_managed]
        exact hok.2 id
    | none =>
        obtain ⟨rest, index, -, hfreed⟩ :=
          (hok.1 id).observeFree_of_top (htop rfl)
        rw [Option.isSome_none, hfreed, SiteLog.voters, List.map_append]
        exact (hok.2 id).freed (htop rfl)
  · rw [hsummary, hlog]
    exact hok.2 id

theorem pairsOk_reachable {state : Logged}
    (hreach : Reachable (Logged.step knobs) .initial state) :
    PairsOk state := by
  have hinitial : PairsOk .initial :=
    ⟨fun id => logOk_fresh id, fun _ => ⟨le_rfl, fun _ =>
      ⟨le_rfl, le_rfl, fun _ => rfl⟩⟩⟩
  exact hreach.invariant hinitial fun _ _ _ hok hstep => pairsOk_step hok hstep

end Invariant

/-! ## The pick -/

/-- At least 95 % of the allocation events of a site, of which there is one,
were popped by frees made at `site`, each by one of them. -/
structure MostlyPoppedBy (site : ℕ) (log : SiteLog) : Prop where
  some : log.allocs ≠ []
  distinct : (log.poppedBy site).Nodup
  inside : ∀ index ∈ log.poppedBy site, index < log.allocs.length
  most : 95 * log.allocs.length ≤ 100 * (log.poppedBy site).length

section Main

variable {knobs : Knobs} {state : Logged} {op : StreamOp} {id : ℕ}

theorem poppedBy_sublist (log : SiteLog) (site : ℕ) :
    (log.poppedBy site).Sublist
      (log.tracked ++ log.popped.map Prod.fst) :=
  (List.filter_sublist.map _).trans (List.sublist_append_right _ _)

theorem mostlyPopped_of_picks
    (hreach : Reachable (Logged.step knobs) .initial state)
    (hforced : knobs.forced = .generic)
    (hpicks : Logged.Picks knobs state op id .pairedStack) :
    let next := Logged.after knobs state op
    MostlyPoppedBy (next.analyzer.summaryOf id).topPair.freeSite
      (next.log id) := by
  dsimp only
  have hall := pairsOk_reachable (hreach.act op rfl)
  have hlog := hall.1 id
  have hpair := hall.2 id
  have hpattern := (Logged.patterns_of_picks hforced hpicks).1 rfl
  rw [CallSiteSummary.pairedPattern, decide_eq_true_eq] at hpattern
  obtain ⟨hevents, -, hratio, -⟩ := hpattern
  rw [ratio_le_iff hevents, hlog.eventCount] at hratio
  rw [hlog.eventCount] at hevents
  have hsublist := poppedBy_sublist ((Logged.after knobs state op).log id)
    ((Logged.after knobs state op).analyzer.summaryOf id).topPair.freeSite
  refine ⟨List.ne_nil_of_length_pos hevents, hlog.distinct.sublist hsublist,
    fun index hmem => hlog.inside index (hsublist.subset hmem),
    hratio.trans ?_⟩
  rw [SiteLog.length_poppedBy]
  exact Nat.mul_le_mul_left 100 hpair.pairCount_le

/-- In every run, while fewer than 2³² frees have popped a site's stack, the
lead of its pair is at most the matched frees, and these are at most the pops
made from the leading site.  In every run at all, a site is given a paired stack
by the picker itself only if the leading site popped 95 % of its allocations. -/
theorem pairedOnlyLifo (knobs : Knobs) :
    (∀ state id, Reachable (Logged.step knobs) .initial state →
      let pair := (state.analyzer.summaryOf id).topPair
      let log := state.log id
      log.popped.length < 2 ^ 32 →
        pair.pairCount ≤ pair.lifoCount ∧
          pair.lifoCount ≤ (log.poppedBy pair.freeSite).length) ∧
    ∀ state op id, Reachable (Logged.step knobs) .initial state →
      knobs.forced = .generic →
      Logged.Picks knobs state op id .pairedStack →
      let next := Logged.after knobs state op
      MostlyPoppedBy (next.analyzer.summaryOf id).topPair.freeSite
        (next.log id) := by
  constructor
  · intro state id hreach pair log hlength
    have hvoters : log.voters.length < 2 ^ 32 := by
      rwa [SiteLog.voters, List.length_map]
    have hcounted := ((pairsOk_reachable hreach).2 id).counted hvoters
    rw [SiteLog.length_poppedBy]
    exact ⟨hcounted.1, hcounted.2.1⟩
  · exact fun _ _ _ hreach hforced hpicks =>
      mostlyPopped_of_picks hreach hforced hpicks

end Main

/-! ## Rounds of one allocation and its free -/

section Rounds

variable {knobs : Knobs} {state : Logged} {pair : PairCandidate}

/-- A free made at `site` of the block that site 7 allocates. -/
def freedAt (site : ℕ) : StreamOp :=
  .process none ⟨site, 0, 1, 4096⟩ fun _ => none

/-- Site 7 allocates a block and it is freed, for each site of the list. -/
def rounds (sites : List ℕ) : List StreamOp :=
  sites.flatMap fun site => [allocates 16, freedAt site]

/-- What a free that pops does to the pair. -/
def popVote (pair : PairCandidate) (site : ℕ) : PairCandidate :=
  if (pair.vote site).freeSite = site then
    { pair.vote site with
      lifoCount := ((pair.vote site).lifoCount + 1) % 2 ^ 32 }
  else pair.vote site

/-- Site 7 is alone in the table, with this pair and nothing outstanding. -/
structure BetweenRounds (pair : PairCandidate) (state : Logged) : Prop where
  single : Single 7 state.analyzer
  lifoStack : (state.analyzer.summaryOf 7).lifoStack = []
  topPair : (state.analyzer.summaryOf 7).topPair = pair

theorem BetweenRounds.round (hbetween : BetweenRounds pair state)
    (site : ℕ) :
    BetweenRounds (popVote pair site)
      (Logged.after knobs (Logged.after knobs state (allocates 16))
        (freedAt site)) := by
  have hsite : AllocEvent.callSite ⟨7, 16, 1, 4096⟩ = 7 := rfl
  have hptr : AllocEvent.ptr ⟨site, 0, 1, 4096⟩ ≠ 0 :=
    (by decide : 4096 ≠ 0)
  obtain ⟨hsingle, hallocated, -⟩ := hbetween.single.processAlloc knobs
    (fun _ => some 65536) none hsite (by decide) (by decide)
  have hbooks := CallSiteSummary.sameBooks_processAlloc knobs
    (fun _ => some 65536) (state.analyzer.summaryOf 7) ⟨7, 16, 1, 4096⟩
  rw [← hallocated] at hbooks
  have htracked : (CallSiteSummary.recordAlloc (state.analyzer.summaryOf 7)
      ⟨7, 16, 1, 4096⟩).lifoStack = [4096] := by
    rw [CallSiteSummary.recordAlloc, hbetween.lifoStack]
    rfl
  have hstack := hbooks.lifoStack.trans htracked
  have hpair := hbooks.topPair.trans hbetween.topPair
  have htop : (((state.analyzer.processEvent knobs (fun _ => some 65536) none
      ⟨7, 16, 1, 4096⟩).1.summaryOf 7).lifoTop 4096) = true := by
    rw [CallSiteSummary.lifoTop, hstack]
    rfl
  obtain ⟨hnext, hfreed⟩ := hsingle.processFree false hptr
  have hfreed := hfreed.trans (if_pos (.inr htop))
  have hafter : (Logged.after knobs (Logged.after knobs state (allocates 16))
      (freedAt site)).analyzer = Analyzer.processFree (state.analyzer.processEvent
        knobs (fun _ => some 65536) none ⟨7, 16, 1, 4096⟩).1
        (if false then some 7 else none) ⟨site, 0, 1, 4096⟩ := rfl
  constructor
  · rw [hafter]
    exact hnext
  · rw [hafter, hfreed, CallSiteSummary.recordFree]
    simp [htop, hstack]
  · rw [hafter, hfreed, CallSiteSummary.recordFree, ← hpair]
    simp [CallSiteSummary.freedPair, popVote, htop]

theorem betweenRounds_rounds (sites : List ℕ) :
    BetweenRounds (sites.foldl popVote ⟨0, 0, 0⟩)
      (Logged.afterAll knobs .initial (rounds sites)) := by
  induction sites using List.reverseRecOn with
  | nil => exact ⟨.inl rfl, rfl, rfl⟩
  | append_singleton sites site ih =>
      rw [List.foldl_append, rounds, List.flatMap_append, Logged.afterAll,
        List.foldl_append]
      exact ih.round site

/-- The leading site goes on popping. -/
theorem foldl_popVote (lead matched count : ℕ) :
    (List.replicate count 9).foldl popVote ⟨9, lead % 2 ^ 32, matched % 2 ^ 32⟩ =
      ⟨9, (lead + count) % 2 ^ 32, (matched + count) % 2 ^ 32⟩ := by
  induction count with
  | zero => rfl
  | succ count ih =>
      rw [List.replicate_succ', List.foldl_append, ih]
      simp [popVote, PairCandidate.vote, Nat.add_assoc]

end Rounds

/-- Two pops from site 9, one from site 8, and then site 9 pops until the count
of matched frees wraps, one round before the lead does. -/
theorem not_pairedOnlyLifo_wrapped :
    ∃ state, Reachable (Logged.step sixEventKnobs) .initial state ∧
      (state.analyzer.summaryOf 7).topPair = ⟨9, 2 ^ 32 - 1, 0⟩ ∧
      ¬(state.analyzer.summaryOf 7).topPair.pairCount ≤
        (state.analyzer.summaryOf 7).topPair.lifoCount := by
  have hfirst : [9, 9, 8].foldl popVote ⟨0, 0, 0⟩ =
      ⟨9, 1 % 2 ^ 32, 2 % 2 ^ 32⟩ := by decide
  have hpair : ([9, 9, 8] ++ List.replicate (2 ^ 32 - 2) 9).foldl popVote
      ⟨0, 0, 0⟩ = ⟨9, 2 ^ 32 - 1, 0⟩ := by
    rw [List.foldl_append, hfirst, foldl_popVote]
    norm_num
  have hbetween : BetweenRounds _ (Logged.afterAll sixEventKnobs _ _) :=
    betweenRounds_rounds ([9, 9, 8] ++ List.replicate (2 ^ 32 - 2) 9)
  rw [hpair] at hbetween
  refine ⟨_, Logged.reachable_afterAll .start _, hbetween.topPair, ?_⟩
  rw [hbetween.topPair]
  decide

/-! ## Twenty-four allocations -/

def twelveEventKnobs : Knobs :=
  { sixEventKnobs with
    windowSize := 12
    windowSize_pos := by decide }

/-- Every allocation but the last has been freed at site 9. -/
def strictlyLifo : Logged :=
  .afterAll twelveEventKnobs .initial (rounds (List.replicate 23 9))

/-- The last allocation settles the site on a paired stack. -/
theorem pairedOnlyLifo_strictlyLifo :
    Logged.Picks twelveEventKnobs strictlyLifo (allocates 16) 7 .pairedStack ∧
      (strictlyLifo.analyzer.summaryOf 7).topPair = ⟨9, 23, 23⟩ ∧
      MostlyPoppedBy 9
        ((Logged.after twelveEventKnobs strictlyLifo (allocates 16)).log 7) := by
  have hcompiles : (Tracked.apply twelveEventKnobs strictlyLifo.analyzer
      (allocates 16)).2.compiled.any (fun call =>
        decide (call.1.strategy = .pairedStack)) = true := by
    decide +kernel
  obtain ⟨call, hcompiled, hstrategy⟩ := (Option.any_eq_true _ _).mp hcompiles
  have hpicks : Logged.Picks twelveEventKnobs strictlyLifo (allocates 16) 7
      .pairedStack :=
    ⟨none, _, _, call.1, call.2, rfl, rfl, hcompiled,
      of_decide_eq_true hstrategy⟩
  have hpair : (strictlyLifo.analyzer.summaryOf 7).topPair = ⟨9, 23, 23⟩ := by
    decide +kernel
  have hleads : ((Logged.after twelveEventKnobs strictlyLifo
      (allocates 16)).analyzer.summaryOf 7).topPair.freeSite = 9 := by
    decide +kernel
  have hreach : Reachable (Logged.step twelveEventKnobs) .initial
      strictlyLifo := Logged.reachable_afterAll .start _
  have hpopped := (pairedOnlyLifo twelveEventKnobs).2 _ _ _ hreach rfl hpicks
  dsimp only at hpopped
  rw [hleads] at hpopped
  exact ⟨hpicks, hpair, hpopped⟩

end TbjitAlloc.Analysis
