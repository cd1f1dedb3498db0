import TbjitAlloc.Analysis.Dump
import TbjitAlloc.Analysis.OracleBound

/-!
# What the tools read from a dump

The scripts under `tools/` load the dumps of a run and count in them.  Some take
the counts of the summary and some count the sites again; the two always agree.
The headroom that `oracle_picker.py` computes from a dump lies on either side of
what `capturable` reports of the table it was written from.
-/

namespace TbjitAlloc.Dump

open TbjitAlloc.Analysis
open TbjitAlloc.Json

/-! ## Looking at a value -/

def getNumber (value : Value) (key : String) : Option ℕ :=
  match value.get key.toList with
  | some (.number number) => some number
  | _ => none

def getText (value : Value) (key : String) : Option (List Char) :=
  match value.get key.toList with
  | some (.text content) => some content
  | _ => none

def getBoolean (value : Value) (key : String) : Option Bool :=
  match value.get key.toList with
  | some (.boolean flag) => some flag
  | _ => none

/-- `d["sites"]`. -/
def sitesOf (dump : Value) : Option (List Value) :=
  match dump.get "sites".toList with
  | some (.array sites) => some sites
  | _ => none

/-! ## `oracle_picker.py` -/

/-- `sum(s["events"] for s in sites if ...)`; a missing key is an error. -/
def sumEvents (keep : Value → Option Bool) : List Value → Option ℕ
  | [] => some 0
  | site :: rest =>
      (keep site).bind fun kept =>
        if kept then
          (getNumber site "events").bind fun events =>
            (sumEvents keep rest).map fun others => events + others
        else sumEvents keep rest

/-- `s["phase"] == name`. -/
def phaseIs (name : String) (site : Value) : Option Bool :=
  (getText site "phase").map fun phase => phase = name.toList

/-- `s["phase"] == "Compiled" or s["blacklisted"]`. -/
def decided (site : Value) : Option Bool :=
  (phaseIs "Compiled" site).bind fun compiled =>
    if compiled then some true else getBoolean site "blacklisted"

/-- A row of `oracle`: the total, the online and the captured events. -/
structure OracleRow where
  total : ℕ
  online : ℕ
  captured : ℕ
  deriving DecidableEq, Repr

/-- One round of the loop in `oracle`. -/
def oracleRow (dump : Value) : Option OracleRow :=
  (sitesOf dump).bind fun sites =>
    (sumEvents (fun _ => some true) sites).bind fun total =>
      (sumEvents decided sites).bind fun captured =>
        (sumEvents (phaseIs "Compiled") sites).map fun online =>
          ⟨total, online, captured⟩

/-! ## `analyze_dumps.py` -/

/-- The sites that show this phase. -/
def countPhase (name : String) (sites : List Value) : ℕ :=
  sites.countP fun site => getText site "phase" = some name.toList

/-- The loop of `aggregate_strategies` and `aggregate_lifetimes`: the Compiled
sites that show `name` under `key`. -/
def aggregate (key : String) (sites : List Value) (name : List Char) : ℕ :=
  sites.countP fun site =>
    getText site "phase" = some "Compiled".toList ∧
      getText site key = some name

/-- The count under `name` in one of the objects of counts. -/
def summaryCount (summary : Value) (key : String) (name : List Char) : ℕ :=
  match (summary.get key.toList).bind fun counts => counts.get name with
  | some (.number count) => count
  | _ => 0

/-- The summary counts the sites that are listed: each under the one phase it
shows, and the Compiled ones under their strategy and their lifetime. -/
structure Agrees (summary : Value) (sites : List Value) : Prop where
  observed : getNumber summary "sites_observed" = some sites.length
  compiled : getNumber summary "compiled" = some (countPhase "Compiled" sites)
  blacklisted : getNumber summary "blacklisted" =
    some (countPhase "Blacklisted" sites)
  deopt : getNumber summary "deopt" = some (countPhase "Deopt" sites)
  prespec : getNumber summary "prespec" = some (countPhase "PreSpec" sites)
  partition : countPhase "Compiled" sites + countPhase "Blacklisted" sites +
    countPhase "Deopt" sites + countPhase "PreSpec" sites = sites.length
  strategies : ∀ name, summaryCount summary "strategy_counts" name =
    aggregate "strategy" sites name
  lifetimes : ∀ name, summaryCount summary "lifetime_counts" name =
    aggregate "lifetime" sites name

/-! ## The counts of the summary -/

section Counts

variable {sites : List CallSiteSummary} {site : CallSiteSummary}

theorem buildSummary_append (sites : List CallSiteSummary)
    (site : CallSiteSummary) :
    buildSummary (sites ++ [site]) = (buildSummary sites).add site := by
  rw [buildSummary, List.foldl_append]
  rfl

/-- The phase a site shows. -/
def shownPhase (site : CallSiteSummary) : String :=
  phaseName site.phase site.blacklisted

/-- The sites of a summary, by what they show. -/
structure Counted (sum : Summary) (sites : List CallSiteSummary) : Prop where
  total : sum.total = sites.length
  compiled : sum.compiled =
    sites.countP fun site => shownPhase site = "Compiled"
  blacklist : sum.blacklist =
    sites.countP fun site => shownPhase site = "Blacklisted"
  deopt : sum.deopt = sites.countP fun site => shownPhase site = "Deopt"
  prespec : sum.prespec = sites.countP fun site => shownPhase site = "PreSpec"
  strategies : ∀ strategy, sum.byStrategy strategy = sites.countP fun site =>
    shownPhase site = "Compiled" ∧ site.candidate = strategy
  lifetimes : ∀ lifetime, sum.byLifetime lifetime = sites.countP fun site =>
    shownPhase site = "Compiled" ∧ site.lifetime = lifetime

theorem update_count {α : Type*} [DecidableEq α] (count : α → ℕ)
    (item other : α) :
    Function.update count item (count item + 1) other =
      count other + if item = other then 1 else 0 := by
  rcases eq_or_ne item other with rfl | hne
  · rw [Function.update_self, if_pos rfl]
  · rw [Function.update_of_ne hne.symm, if_neg hne, Nat.add_zero]

/-- One round counts the site under the phase it shows, and under its strategy
and its lifetime if that is Compiled. -/
theorem add_counts (sum : Summary) (site : CallSiteSummary) :
    let phase := shownPhase site
    let next := sum.add site
    next.total = sum.total + 1 ∧
    next.compiled = sum.compiled + (if phase = "Compiled" then 1 else 0) ∧
    next.blacklist = sum.blacklist +
      (if phase = "Blacklisted" then 1 else 0) ∧
    next.deopt = sum.deopt + (if phase = "Deopt" then 1 else 0) ∧
    next.prespec = sum.prespec + (if phase = "PreSpec" then 1 else 0) ∧
    (∀ strategy, next.byStrategy strategy = sum.byStrategy strategy +
      if phase = "Compiled" ∧ site.candidate = strategy then 1 else 0) ∧
    ∀ lifetime, next.byLifetime lifetime = sum.byLifetime lifetime +
      if phase = "Compiled" ∧ site.lifetime = lifetime then 1 else 0 := by
  dsimp only
  unfold Summary.add servedByRoutine shownPhase phaseName
  cases site.blacklisted with
  | true => simp
  | false =>
      cases site.phase with
      | compiled => simp [update_count]
      | deopt => simp
      | preSpec => simp

theorem counted_add {sum : Summary} (hcounted : Counted sum sites)
    (site : CallSiteSummary) : Counted (sum.add site) (sites ++ [site]) := by
  obtain ⟨htotal, hcompiled, hblacklist, hdeopt, hprespec, hstrategies,
    hlifetimes⟩ := add_counts sum site
  have hone : ∀ {p : CallSiteSummary → Prop} [DecidablePred p] {count : ℕ},
      count = sites.countP (fun site => p site) →
        count + (if p site then 1 else 0) =
          (sites ++ [site]).countP fun site => p site := by
    intro p _ count hcount
    rw [List.countP_append, List.countP_singleton, hcount]
    simp only [decide_eq_true_eq]
  exact
    { total := by
        rw [htotal, hcounted.total, List.length_append, List.length_singleton]
      compiled := hcompiled.trans (hone hcounted.compiled)
      blacklist := hblacklist.trans (hone hcounted.blacklist)
      deopt := hdeopt.trans (hone hcounted.deopt)
      prespec := hprespec.trans (hone hcounted.prespec)
      strategies := fun strategy =>
        (hstrategies strategy).trans (hone (hcounted.strategies strategy))
      lifetimes := fun lifetime =>
        (hlifetimes lifetime).trans (hone (hcounted.lifetimes lifetime)) }

theorem counted_buildSummary (sites : List CallSiteSummary) :
    Counted (buildSummary sites) sites := by
  induction sites using List.reverseRecOn with
  | nil => exact ⟨rfl, rfl, rfl, rfl, rfl, fun _ => rfl, fun _ => rfl⟩
  | append_singleton sites site ih =>
      rw [buildSummary_append]
      exact counted_add ih site

/-- Every site shows one of the four phases. -/
theorem countP_phases (sites : List CallSiteSummary) :
    (sites.countP fun site => shownPhase site = "Compiled") +
        (sites.countP fun site => shownPhase site = "Blacklisted") +
        (sites.countP fun site => shownPhase site = "Deopt") +
        (sites.countP fun site => shownPhase site = "PreSpec") =
      sites.length := by
  induction sites with
  | nil => rfl
  | cons site sites ih =>
      have hone : [decide (shownPhase site = "Compiled"),
          decide (shownPhase site = "Blacklisted"),
          decide (shownPhase site = "Deopt"),
          decide (shownPhase site = "PreSpec")].countP id = 1 := by
        unfold shownPhase
        cases site.phase <;> cases site.blacklisted <;> decide
      simp only [List.countP_cons, List.countP_nil, id_eq] at hone
      rw [List.countP_cons, List.countP_cons, List.countP_cons,
        List.countP_cons, List.length_cons, ← ih]
      omega

end Counts

/-! ## The objects of counts -/

section Lookup

variable {α : Type*} {name : α → String} {count : α → ℕ} {all : List α}
variable {key : List Char}

/-- What is looked up among counts that are given in any order. -/
def countAt (counts : List (List Char × ℕ)) (key : List Char) : ℕ :=
  (counts.lookup key).getD 0

theorem lookup_map_number (counts : List (List Char × ℕ)) (key : List Char) :
    (counts.map fun entry => (entry.1, Value.number entry.2)).lookup key =
      (counts.lookup key).map Value.number := by
  induction counts with
  | nil => rfl
  | cons entry counts ih =>
      obtain ⟨other, count⟩ := entry
      rw [List.map_cons, List.lookup_cons, List.lookup_cons]
      cases key == other with
      | true => rfl
      | false => exact ih

theorem summaryCount_of_get {summary : Value} {field : String}
    {counts : List (List Char × ℕ)}
    (hget : summary.get field.toList = some (countsValue counts))
    (key : List Char) :
    summaryCount summary field key = countAt counts key := by
  rw [summaryCount, hget, Option.bind_some, countsValue, Value.get,
    lookup_map_number, countAt]
  cases counts.lookup key <;> rfl

/-- A name that is not among them has no count. -/
theorem countAt_of_not_mem (hkey : ∀ item ∈ all, (name item).toList ≠ key) :
    countAt (counted name count all) key = 0 := by
  induction all with
  | nil => rfl
  | cons item all ih =>
      have hrest := ih fun other hother =>
        hkey other (List.mem_cons_of_mem _ hother)
      have hne : (key == (name item).toList) = false :=
        beq_eq_false_iff_ne.mpr (hkey item List.mem_cons_self).symm
      by_cases hcount : count item = 0
      · simpa [counted, hcount] using hrest
      · simpa [counted, hcount, countAt, List.lookup_cons, hne] using hrest

/-- The count under a name is that of the item, listed or not. -/
theorem countAt_counted (hnames : (all.map fun item => (name item).toList).Nodup)
    {item : α} (hitem : item ∈ all) :
    countAt (counted name count all) (name item).toList = count item := by
  induction all with
  | nil => exact absurd hitem List.not_mem_nil
  | cons first all ih =>
      rw [List.map_cons, List.nodup_cons] at hnames
      obtain ⟨hfirst, hnames⟩ := hnames
      rcases List.mem_cons.mp hitem with rfl | hmem
      · by_cases hcount : count item = 0
        · have hnone := @countAt_of_not_mem α name count all (name item).toList
            fun other hother hsame =>
              hfirst (List.mem_map.mpr ⟨other, hother, hsame⟩)
          rw [hcount]
          simpa [counted, hcount] using hnone
        · simp [counted, hcount, countAt]
      · have hrest := ih hnames hmem
        have hne : ((name item).toList == (name first).toList) = false :=
          beq_eq_false_iff_ne.mpr fun hsame =>
            hfirst (List.mem_map.mpr ⟨item, hmem, hsame⟩)
        by_cases hcount : count first = 0
        · simpa [counted, hcount] using hrest
        · simpa [counted, hcount, countAt, List.lookup_cons, hne] using hrest

end Lookup

/-! ## The dump is consistent -/

section Consistency

variable (sites : List CallSiteSummary)

theorem countPhase_siteValue (phase : String) :
    countPhase phase (sites.map siteValue) =
      sites.countP fun site => shownPhase site = phase := by
  rw [countPhase, List.countP_map]
  congr 1
  funext site
  have hphase : getText (siteValue site) "phase" =
    some (shownPhase site).toList := rfl
  simp only [Function.comp_apply, hphase, Option.some.injEq, String.toList_inj]

/-- The Compiled sites with a property that is shown under `key`. -/
theorem aggregate_siteValue {key : String} {shown : CallSiteSummary → String}
    (hkey : ∀ site, getText (siteValue site) key = some (shown site).toList)
    (name : List Char) :
    aggregate key (sites.map siteValue) name =
      sites.countP fun site =>
        shownPhase site = "Compiled" ∧ (shown site).toList = name := by
  rw [aggregate, List.countP_map]
  congr 1
  funext site
  have hphase : getText (siteValue site) "phase" =
    some (shownPhase site).toList := rfl
  simp only [Function.comp_apply, hphase, hkey, Option.some.injEq,
    String.toList_inj]

/-- The counts of a property agree with those of the sites, under every name. -/
theorem countAt_eq_aggregate {α : Type*} [DecidableEq α] {shown : α → String}
    {property : CallSiteSummary → α} {key : String} {all : List α}
    {count : α → ℕ}
    (hkey : ∀ site, getText (siteValue site) key =
      some (shown (property site)).toList)
    (hall : ∀ item, item ∈ all)
    (hnames : (all.map fun item => (shown item).toList).Nodup)
    (hcount : ∀ item, count item = sites.countP fun site =>
      shownPhase site = "Compiled" ∧ property site = item)
    (name : List Char) :
    countAt (counted shown count all) name =
      aggregate key (sites.map siteValue) name := by
  rw [aggregate_siteValue sites hkey]
  by_cases hname : ∃ item, (shown item).toList = name
  · obtain ⟨item, rfl⟩ := hname
    have hinj : ∀ other, (shown other).toList = (shown item).toList ↔
        other = item := fun other =>
      ⟨fun hsame => List.inj_on_of_nodup_map hnames (hall other) (hall item)
        hsame, fun hsame => by rw [hsame]⟩
    rw [countAt_counted hnames (hall item), hcount item]
    simp only [hinj]
  · have hnever : ∀ item, (shown item).toList ≠ name := fun item hsame =>
      hname ⟨item, hsame⟩
    rw [countAt_of_not_mem fun item _ => hnever item, eq_comm,
      List.countP_eq_zero]
    intro site _
    simp [hnever]

theorem mem_strategies (strategy : Strategy) : strategy ∈ strategies := by
  cases strategy <;> decide

theorem mem_lifetimes (lifetime : LifetimeTag) : lifetime ∈ lifetimes := by
  cases lifetime <;> decide

/-- The dump of any table is read as a summary that agrees with the sites
beside it. -/
theorem agrees_dump (analyzer : Analyzer) (jitAllocs genericAllocs : ℕ) :
    ∃ dump summary sites,
      parse (dumpStats analyzer jitAllocs genericAllocs) = some dump ∧
      dump.get "summary".toList = some summary ∧
      sitesOf dump = some sites ∧ Agrees summary sites := by
  have hcounted := counted_buildSummary analyzer.summaries
  refine ⟨_, summaryValue (buildSummary analyzer.summaries) jitAllocs
    genericAllocs, analyzer.summaries.map siteValue,
    parse_dumpStats analyzer jitAllocs genericAllocs, rfl, rfl, ?_⟩
  refine ⟨?_, ?_, ?_, ?_, ?_, ?_, fun name => ?_, fun name => ?_⟩
  · rw [List.length_map, ← hcounted.total]
    rfl
  · rw [countPhase_siteValue, ← hcounted.compiled]
    rfl
  · rw [countPhase_siteValue, ← hcounted.blacklist]
    rfl
  · rw [countPhase_siteValue, ← hcounted.deopt]
    rfl
  · rw [countPhase_siteValue, ← hcounted.prespec]
    rfl
  · rw [countPhase_siteValue, countPhase_siteValue, countPhase_siteValue,
      countPhase_siteValue, List.length_map]
    exact countP_phases analyzer.summaries
  · have hkey : ∀ site, getText (siteValue site) "strategy" =
      some (strategyName site.candidate).toList := fun _ => rfl
    rw [← countAt_eq_aggregate analyzer.summaries hkey mem_strategies
      (by decide) hcounted.strategies name]
    exact summaryCount_of_get rfl name
  · have hkey : ∀ site, getText (siteValue site) "lifetime" =
      some (lifetimeName site.lifetime).toList := fun _ => rfl
    rw [← countAt_eq_aggregate analyzer.summaries hkey mem_lifetimes
      (by decide) hcounted.lifetimes name]
    exact summaryCount_of_get rfl name

end Consistency

/-! ## The headroom -/

section Headroom

/-- The events of the sites that are kept. -/
def keptEvents (keep : CallSiteSummary → Bool)
    (sites : List CallSiteSummary) : ℕ :=
  ((sites.filter keep).map CallSiteSummary.eventCount).sum

/-- No key is missing, so that the script arrives at a sum. -/
theorem sumEvents_siteValue {keep : Value → Option Bool}
    {kept : CallSiteSummary → Bool}
    (hkeep : ∀ site, keep (siteValue site) = some (kept site))
    (sites : List CallSiteSummary) :
    sumEvents keep (sites.map siteValue) = some (keptEvents kept sites) := by
  induction sites with
  | nil => rfl
  | cons site sites ih =>
      have hevents : getNumber (siteValue site) "events" =
        some site.eventCount := rfl
      rw [List.map_cons, sumEvents, hkeep, Option.bind_some, ih, hevents,
        keptEvents, keptEvents, List.filter_cons]
      cases kept site with
      | true => rfl
      | false => rfl

theorem keptEvents_mono {keep more : CallSiteSummary → Bool}
    (hmore : ∀ site, keep site = true → more site = true)
    (sites : List CallSiteSummary) :
    keptEvents keep sites ≤ keptEvents more sites := by
  have hsublist : (sites.filter keep).Sublist (sites.filter more) :=
    List.monotone_filter_right sites hmore
  exact (hsublist.map _).sum_le_sum fun _ _ => Nat.zero_le _

theorem phaseIs_siteValue (site : CallSiteSummary) :
    phaseIs "Compiled" (siteValue site) = some (servedByRoutine site) := by
  have hphase : getText (siteValue site) "phase" =
    some (phaseName site.phase site.blacklisted).toList := rfl
  rw [phaseIs, hphase, servedByRoutine]
  cases site.phase <;> cases site.blacklisted <;> rfl

theorem decided_siteValue (site : CallSiteSummary) :
    decided (siteValue site) =
      some (servedByRoutine site || site.blacklisted) := by
  have hblacklisted : getBoolean (siteValue site) "blacklisted" =
    some site.blacklisted := rfl
  rw [decided, phaseIs_siteValue, hblacklisted, Option.bind_some]
  cases servedByRoutine site <;> rfl

/-- `oracle_picker.py` computes a row from every dump.  Its total is that of
`capturable`, whose captured events lie between its online and its captured
ones. -/
theorem oracleRow_dump (analyzer : Analyzer) (jitAllocs genericAllocs : ℕ) :
    ∃ row, (parse (dumpStats analyzer jitAllocs genericAllocs)).bind oracleRow =
        some row ∧
      row.total = analyzer.capturable.totalEvents ∧
      row.online ≤ analyzer.capturable.capturedEvents ∧
      analyzer.capturable.capturedEvents ≤ row.captured ∧
      row.captured ≤ row.total := by
  have hsites : sitesOf (dumpValue analyzer jitAllocs genericAllocs) =
    some (analyzer.summaries.map siteValue) := rfl
  have htotal := @sumEvents_siteValue (fun _ => some true) (fun _ => true)
    (fun _ => rfl) analyzer.summaries
  have hrow : (parse (dumpStats analyzer jitAllocs genericAllocs)).bind
      oracleRow = some
        ⟨keptEvents (fun _ => true) analyzer.summaries,
          keptEvents servedByRoutine analyzer.summaries,
          keptEvents (fun site => servedByRoutine site || site.blacklisted)
            analyzer.summaries⟩ := by
    rw [parse_dumpStats, Option.bind_some, oracleRow, hsites, Option.bind_some,
      htotal, Option.bind_some, sumEvents_siteValue decided_siteValue,
      Option.bind_some, sumEvents_siteValue phaseIs_siteValue]
    rfl
  refine ⟨_, hrow, ?_, ?_, ?_, ?_⟩
  · rw [keptEvents, List.filter_true]
    rfl
  · exact keptEvents_mono (fun site hserved =>
      (Bool.and_eq_true_iff.mp hserved).1) analyzer.summaries
  · refine keptEvents_mono (fun site hcompiled => ?_) analyzer.summaries
    rw [servedByRoutine, hcompiled]
    cases site.blacklisted <;> rfl
  · exact keptEvents_mono (fun _ _ => rfl) analyzer.summaries

end Headroom

end TbjitAlloc.Dump
