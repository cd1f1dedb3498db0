import TbjitAlloc.Analysis.SiteLog
import TbjitAlloc.Analysis.PostWindow

/-!
# Thread concentration

A thread distribution is a majority vote with a counter of all its records.
While neither counter has wrapped it names any thread with more than half of the
records, and never counts more for the thread it names than that thread has.
So the ratio the picker tests is a lower bound for the share of one thread.
-/

namespace TbjitAlloc.Analysis

open TbjitAlloc.MajorityVote
open TbjitAlloc.Transition

namespace ThreadDist

/-- The distribution of a sequence of thread ids. -/
def ofTids (tids : List ℕ) : ThreadDist := tids.foldl record ⟨0, 0, 0⟩

theorem ofTids_append (tids : List ℕ) (tid : ℕ) :
    ofTids (tids ++ [tid]) = (ofTids tids).record tid := by
  rw [ofTids, List.foldl_append]
  rfl

/-- The vote in a distribution. -/
def tally (dist : ThreadDist) : Tally ℕ := ⟨dist.topTid, dist.topCount⟩

theorem tally_record (dist : ThreadDist) (tid : ℕ) :
    (dist.record tid).tally = dist.tally.cast (2 ^ 32) tid := by
  rw [record, Tally.cast]
  dsimp only [tally]
  split
  · next hfor => exact (if_pos hfor).symm
  · next hfor =>
      split
      · next hlast => exact ((if_neg hfor).trans (if_pos hlast)).symm
      · next hlast => exact ((if_neg hfor).trans (if_neg hlast)).symm

theorem total_record (dist : ThreadDist) (tid : ℕ) :
    (dist.record tid).total = (dist.total + 1) % 2 ^ 32 := by
  rw [record]
  dsimp only
  split
  · rfl
  · split <;> rfl

theorem tally_ofTids (tids : List ℕ) :
    (ofTids tids).tally = Tally.castAll (2 ^ 32) ⟨0, 0⟩ tids := by
  induction tids using List.reverseRecOn with
  | nil => rfl
  | append_singleton tids tid ih =>
      rw [ofTids_append, tally_record, ih, Tally.castAll_append]

theorem total_ofTids (tids : List ℕ) :
    (ofTids tids).total = tids.length % 2 ^ 32 := by
  induction tids using List.reverseRecOn with
  | nil => rfl
  | append_singleton tids tid ih =>
      rw [ofTids_append, total_record, ih, List.length_append,
        List.length_singleton, Nat.mod_add_mod]

/-- What a distribution says about the records it was made of. -/
structure FindsMajority (tids : List ℕ) (dist : ThreadDist) : Prop where
  total : dist.total = tids.length
  topCount_le : dist.topCount ≤ tids.count dist.topTid
  topTid : ∀ tid, tids.length < 2 * tids.count tid → dist.topTid = tid

theorem findsMajority_ofTids {tids : List ℕ} (hlength : tids.length < 2 ^ 32) :
    FindsMajority tids (ofTids tids) := by
  have hzero : (⟨0, 0⟩ : Tally ℕ).lead = 0 := rfl
  constructor
  · rw [total_ofTids, Nat.mod_eq_of_lt hlength]
  · have hlead := Tally.lead_le_count (2 ^ 32) tids hzero
    rwa [← tally_ofTids] at hlead
  · intro tid hmajority
    have hleader := Tally.leader_of_majority hzero hlength hmajority
    rwa [← tally_ofTids] at hleader

end ThreadDist

/-! ## The producer-consumer pattern -/

/-- At least 95 % of the events, of which there is one, are of this thread. -/
def MostlyOf (tid : ℕ) (events : List AllocEvent) : Prop :=
  events ≠ [] ∧ 95 * events.length ≤
    100 * (events.map AllocEvent.threadId).count tid

/-- A ratio of two counters, cleared of its denominators. -/
theorem ratio_le_iff {part whole : ℕ} (hwhole : 0 < whole) :
    (95 / 100 : ℚ) ≤ part / whole ↔ 95 * whole ≤ 100 * part := by
  have hpos : (0 : ℚ) < whole := by exact_mod_cast hwhole
  rw [div_le_div_iff₀ (by norm_num) hpos]
  have hcomm : (part : ℚ) * 100 = 100 * part := mul_comm _ _
  rw [hcomm]
  exact_mod_cast Iff.rfl

/-- The test of the picker bounds the share of the thread that is named. -/
theorem mostlyOf_of_concentrated {events : List AllocEvent}
    (hlength : events.length < 2 ^ 32)
    (htest : CallSiteSummary.concentrated (distOf events) = true) :
    MostlyOf (distOf events).topTid events := by
  have hfinds : ThreadDist.FindsMajority (events.map AllocEvent.threadId)
      (distOf events) :=
    ThreadDist.findsMajority_ofTids (by rwa [List.length_map])
  rw [CallSiteSummary.concentrated, decide_eq_true_eq] at htest
  obtain ⟨hpos, hratio⟩ := htest
  rw [ratio_le_iff hpos, hfinds.total, List.length_map] at hratio
  rw [hfinds.total, List.length_map] at hpos
  refine ⟨List.ne_nil_of_length_pos hpos, hratio.trans ?_⟩
  exact Nat.mul_le_mul_left 100 hfinds.topCount_le

/-- Almost all allocation records of a site are one thread's, and almost all of
its free records are another's. -/
def ProducerConsumer (log : SiteLog) : Prop :=
  ∃ producer consumer, producer ≠ consumer ∧
    MostlyOf producer log.allocs ∧ MostlyOf consumer log.frees

theorem producerConsumer_of_picks {knobs : Knobs} {state : Logged}
    {op : StreamOp} {id : ℕ}
    (hreach : Reachable (Logged.step knobs) .initial state)
    (hforced : knobs.forced = .generic)
    (hpicks : Logged.Picks knobs state op id .producerConsumer)
    (hallocs : ((Logged.after knobs state op).log id).allocs.length < 2 ^ 32)
    (hfrees : ((Logged.after knobs state op).log id).frees.length < 2 ^ 32) :
    ProducerConsumer ((Logged.after knobs state op).log id) := by
  have hok := logsOk_reachable (hreach.act op rfl) id
  have hpattern := (Logged.patterns_of_picks hforced hpicks).2 rfl
  rw [CallSiteSummary.pcPattern, decide_eq_true_eq, hok.allocDist,
    hok.freeDist] at hpattern
  obtain ⟨hproducer, hconsumer, hdiffer⟩ := hpattern
  exact ⟨_, _, hdiffer, mostlyOf_of_concentrated hallocs hproducer,
    mostlyOf_of_concentrated hfrees hconsumer⟩

/-- A distribution of fewer than 2³² records counts them, never overstates the
thread it names, and names any thread with more than half of them; and where the
picker settles on a producer-consumer routine by itself, with fewer than 2³²
records of either kind, 95 % of the allocations are one thread's and 95 % of the
frees another's. -/
theorem threadDist_means (knobs : Knobs) :
    (∀ tids : List ℕ, tids.length < 2 ^ 32 →
      ThreadDist.FindsMajority tids (.ofTids tids)) ∧
    ∀ state op id, Reachable (Logged.step knobs) .initial state →
      knobs.forced = .generic →
      Logged.Picks knobs state op id .producerConsumer →
      let log := (Logged.after knobs state op).log id
      log.allocs.length < 2 ^ 32 → log.frees.length < 2 ^ 32 →
      ProducerConsumer log :=
  ⟨fun _ hlength => ThreadDist.findsMajority_ofTids hlength,
    fun _ _ _ hreach hforced hpicks hallocs hfrees =>
      producerConsumer_of_picks hreach hforced hpicks hallocs hfrees⟩

/-- A free that thread 2 makes of a block of a segment of site 7. -/
def remoteFree : StreamOp :=
  .process (some 7) ⟨9, 0, 2, 8192⟩ fun _ => none

/-- Eleven allocations by thread 1 and a free by thread 2. -/
def handedOver : Logged :=
  .afterAll sixEventKnobs .initial
    (List.replicate 11 (allocates 16) ++ [remoteFree])

/-- The twelfth allocation settles the site on a producer-consumer routine. -/
theorem threadDist_means_handedOver :
    Logged.Picks sixEventKnobs handedOver (allocates 16) 7 .producerConsumer ∧
      ((Logged.after sixEventKnobs handedOver (allocates 16)).log
        7).allocs.length = 12 ∧
      ProducerConsumer
        ((Logged.after sixEventKnobs handedOver (allocates 16)).log 7) := by
  have hcompiles : (Tracked.apply sixEventKnobs handedOver.analyzer
      (allocates 16)).2.compiled.any (fun call =>
        decide (call.1.strategy = .producerConsumer)) = true := by
    decide +kernel
  obtain ⟨call, hcompiled, hstrategy⟩ := (Option.any_eq_true _ _).mp hcompiles
  have hpicks : Logged.Picks sixEventKnobs handedOver (allocates 16) 7
      .producerConsumer :=
    ⟨none, _, _, call.1, call.2, rfl, rfl, hcompiled,
      of_decide_eq_true hstrategy⟩
  have hlengths : ((Logged.after sixEventKnobs handedOver (allocates 16)).log
      7).allocs.length = 12 ∧
        ((Logged.after sixEventKnobs handedOver (allocates 16)).log
          7).frees.length = 1 := by decide +kernel
  refine ⟨hpicks, hlengths.1, (threadDist_means sixEventKnobs).2 _ _ _
    (Logged.reachable_afterAll .start _) rfl hpicks ?_ ?_⟩
  · rw [hlengths.1]
    decide
  · rw [hlengths.2]
    decide

end TbjitAlloc.Analysis
