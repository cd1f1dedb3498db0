import TbjitAlloc.Core.Json
import TbjitAlloc.Analysis.Picker
import TbjitAlloc.Analysis.ModeOrder

/-!
# The JSON dump

What `dump_stats` writes to the file named by `TBJIT_DUMP_JSON` at the end of a
run: a summary of the table of sites and one object for each site.  The file
is always a JSON text, and the value read from it is given here.
-/

namespace TbjitAlloc.Analysis

/-- `ExactHistogram::quantile`. -/
def ExactHistogram.quantile (hist : ExactHistogram) (p : ℚ) : ℕ :=
  if hist.total = 0 then 0
  else
    (walkTo (coverage p (hist.total - 1)) 0 hist.sortedModes).getD
      ((hist.sortedModes.getLast?.map Mode.size).getD 0)

end TbjitAlloc.Analysis

namespace TbjitAlloc.Dump

open TbjitAlloc.Analysis
open TbjitAlloc.Json

/-! ## Names -/

def strategyName : Strategy → String
  | .bumpAlloc => "BumpAlloc"
  | .threadLocalFreeList => "TLFreeList"
  | .epochArena => "EpochArena"
  | .pairedStack => "PairedStack"
  | .producerConsumer => "ProducerConsumer"
  | .multiSizeFreeList => "MultiSizeFreeList"
  | .generic => "-"

def lifetimeName : LifetimeTag → String
  | .reap => "Reap"
  | .hold => "Hold"
  | .unknown => "Unknown"

def phaseName (phase : Phase) (blacklisted : Bool) : String :=
  if blacklisted then "Blacklisted"
  else
    match phase with
    | .compiled => "Compiled"
    | .deopt => "Deopt"
    | .preSpec => "PreSpec"

def deoptReasonName : DeoptReason → String
  | .sizeDrift => "SizeDrift"
  | .regionExhaust => "RegionExhaust"
  | .threadShift => "ThreadShift"
  | .lifoViolation => "LifoViolation"
  | .other => "Other"
  | .none => "None"

/-- The enumerators in the order of their values. -/
def strategies : List Strategy :=
  [.generic, .bumpAlloc, .threadLocalFreeList, .epochArena, .pairedStack,
    .producerConsumer, .multiSizeFreeList]

def lifetimes : List LifetimeTag := [.unknown, .reap, .hold]

/-! ## The summary -/

/-- `Summary`, with the counts that are dumped. -/
structure Summary where
  total : ℕ
  compiled : ℕ
  blacklist : ℕ
  prespec : ℕ
  deopt : ℕ
  byStrategy : Strategy → ℕ
  byLifetime : LifetimeTag → ℕ

def Summary.zero : Summary where
  total := 0
  compiled := 0
  blacklist := 0
  prespec := 0
  deopt := 0
  byStrategy := fun _ => 0
  byLifetime := fun _ => 0

/-- The site has a routine that serves it. -/
def servedByRoutine (site : CallSiteSummary) : Bool :=
  site.phase = .compiled && !site.blacklisted

/-- One round of the loop in `build_summary`. -/
def Summary.add (sum : Summary) (site : CallSiteSummary) : Summary :=
  let sum := { sum with total := sum.total + 1 }
  let sum :=
    if site.blacklisted then { sum with blacklist := sum.blacklist + 1 }
    else if site.phase = .compiled then
      { sum with compiled := sum.compiled + 1 }
    else if site.phase = .deopt then { sum with deopt := sum.deopt + 1 }
    else { sum with prespec := sum.prespec + 1 }
  if servedByRoutine site then
    { sum with
      byStrategy := Function.update sum.byStrategy site.candidate
        (sum.byStrategy site.candidate + 1)
      byLifetime := Function.update sum.byLifetime site.lifetime
        (sum.byLifetime site.lifetime + 1) }
  else sum

def buildSummary (sites : List CallSiteSummary) : Summary :=
  sites.foldl Summary.add .zero

/-! ## The text -/

/-- The histogram whose quantiles are shown. -/
def shownHistogram (site : CallSiteSummary) : ExactHistogram :=
  if site.phase = .compiled then site.baseline else site.activeHist

def number (key : String) (value : ℕ) : List Char × List Char :=
  (key.toList, printNumber value)

def text (key content : String) : List Char × List Char :=
  (key.toList, printText content.toList)

def boolean (key : String) (value : Bool) : List Char × List Char :=
  (key.toList, printBoolean value)

def siteFields (site : CallSiteSummary) : List (List Char × List Char) :=
  let hist := shownHistogram site
  [number "id" site.id,
    number "events" site.eventCount,
    number "frees" site.freeCount,
    number "p50" (hist.quantile (50 / 100)),
    number "p95" (hist.quantile (95 / 100)),
    number "p99" (hist.quantile (99 / 100)),
    text "phase" (phaseName site.phase site.blacklisted),
    text "strategy" (strategyName site.candidate),
    text "lifetime" (lifetimeName site.lifetime),
    number "deopts" site.deoptCount,
    text "deopt_reason" (deoptReasonName site.deoptReason),
    boolean "blacklisted" site.blacklisted,
    number "first_compile_events" site.firstCompileEvents]

def siteObject (site : CallSiteSummary) : List Char :=
  ['{'] ++ (printFields [',', ' '] true (siteFields site) ++ ['}'])

/-- The loop over the sites; the last one is not followed by a comma. -/
def siteLines : List CallSiteSummary → List Char
  | [] => []
  | site :: rest =>
      "    ".toList ++ (siteObject site ++
        ((if rest.isEmpty then ['\n'] else [',', '\n']) ++ siteLines rest))

/-- The names that have a count, each with it. -/
def counted {α : Type*} (name : α → String) (count : α → ℕ) (all : List α) :
    List (List Char × ℕ) :=
  (all.filter fun item => count item ≠ 0).map fun item =>
    ((name item).toList, count item)

def countsObject (counts : List (List Char × ℕ)) : List Char :=
  ['{'] ++ (printFields [',', ' '] true
    (counts.map fun entry => (entry.1, printNumber entry.2)) ++ ['}'])

def strategyCounts (sum : Summary) : List (List Char × ℕ) :=
  counted strategyName sum.byStrategy strategies

def lifetimeCounts (sum : Summary) : List (List Char × ℕ) :=
  counted lifetimeName sum.byLifetime lifetimes

def summaryFields (sum : Summary) (jitAllocs genericAllocs : ℕ) :
    List (List Char × List Char) :=
  [number "sites_observed" sum.total,
    number "compiled" sum.compiled,
    number "blacklisted" sum.blacklist,
    number "deopt" sum.deopt,
    number "prespec" sum.prespec,
    number "jit_allocs" jitAllocs,
    number "generic_allocs" genericAllocs,
    ("strategy_counts".toList, countsObject (strategyCounts sum)),
    ("lifetime_counts".toList, countsObject (lifetimeCounts sum))]

def summaryObject (sum : Summary) (jitAllocs genericAllocs : ℕ) : List Char :=
  "\x7b\n    ".toList ++ (printFields (",\n    ".toList) true
    (summaryFields sum jitAllocs genericAllocs) ++ "\n  \x7d".toList)

/-- What `write_json_dump` writes. -/
def writeJsonDump (sites : List CallSiteSummary) (sum : Summary)
    (jitAllocs genericAllocs : ℕ) : List Char :=
  "\x7b\n  ".toList ++ (printFields (",\n  ".toList) true
    [("summary".toList, summaryObject sum jitAllocs genericAllocs),
      ("sites".toList, "[\n".toList ++ (siteLines sites ++ "  ]".toList))] ++
    "\n\x7d\n".toList)

/-- `dump_stats`, as far as the file goes. -/
def dumpStats (analyzer : Analyzer) (jitAllocs genericAllocs : ℕ) : List Char :=
  writeJsonDump analyzer.summaries (buildSummary analyzer.summaries) jitAllocs
    genericAllocs

set_option maxRecDepth 2000 in
/-- The format of one site. -/
example : siteObject (.fresh 7) =
    ("\x7b\"id\": 7, \"events\": 0, \"frees\": 0, " ++
      "\"p50\": 0, \"p95\": 0, \"p99\": 0, " ++
      "\"phase\": \"PreSpec\", \"strategy\": \"-\", " ++
      "\"lifetime\": \"Unknown\", \"deopts\": 0, " ++
      "\"deopt_reason\": \"None\", " ++
      "\"blacklisted\": false, \"first_compile_events\": 0\x7d").toList := rfl

/-! ## The value -/

def entry (key : String) (value : Value) : List Char × Value :=
  (key.toList, value)

def siteEntries (site : CallSiteSummary) : List (List Char × Value) :=
  let hist := shownHistogram site
  [entry "id" (.number site.id),
    entry "events" (.number site.eventCount),
    entry "frees" (.number site.freeCount),
    entry "p50" (.number (hist.quantile (50 / 100))),
    entry "p95" (.number (hist.quantile (95 / 100))),
    entry "p99" (.number (hist.quantile (99 / 100))),
    entry "phase" (.text (phaseName site.phase site.blacklisted).toList),
    entry "strategy" (.text (strategyName site.candidate).toList),
    entry "lifetime" (.text (lifetimeName site.lifetime).toList),
    entry "deopts" (.number site.deoptCount),
    entry "deopt_reason" (.text (deoptReasonName site.deoptReason).toList),
    entry "blacklisted" (.boolean site.blacklisted),
    entry "first_compile_events" (.number site.firstCompileEvents)]

def siteValue (site : CallSiteSummary) : Value := .object (siteEntries site)

def countsValue (counts : List (List Char × ℕ)) : Value :=
  .object (counts.map fun count => (count.1, .number count.2))

def summaryValue (sum : Summary) (jitAllocs genericAllocs : ℕ) : Value :=
  .object
    [entry "sites_observed" (.number sum.total),
      entry "compiled" (.number sum.compiled),
      entry "blacklisted" (.number sum.blacklist),
      entry "deopt" (.number sum.deopt),
      entry "prespec" (.number sum.prespec),
      entry "jit_allocs" (.number jitAllocs),
      entry "generic_allocs" (.number genericAllocs),
      entry "strategy_counts" (countsValue (strategyCounts sum)),
      entry "lifetime_counts" (countsValue (lifetimeCounts sum))]

/-- What is read from the dump. -/
def dumpValue (analyzer : Analyzer) (jitAllocs genericAllocs : ℕ) : Value :=
  .object
    [entry "summary" (summaryValue (buildSummary analyzer.summaries) jitAllocs
      genericAllocs),
    entry "sites" (.array (analyzer.summaries.map siteValue))]

/-! ## The dump is read back -/

section Reading

variable {key content : String} {value : Value}

theorem printsField_number (hkey : key.toList.all plain = true) (value : ℕ) :
    PrintsField (number key value) (entry key (.number value)) :=
  ⟨rfl, hkey, shows_number value⟩

theorem printsField_text (hkey : key.toList.all plain = true)
    (hcontent : content.toList.all plain = true) :
    PrintsField (text key content) (entry key (.text content.toList)) :=
  ⟨rfl, hkey, shows_text hcontent⟩

theorem printsField_boolean (hkey : key.toList.all plain = true)
    (value : Bool) :
    PrintsField (boolean key value) (entry key (.boolean value)) :=
  ⟨rfl, hkey, shows_boolean value⟩

theorem printsField_value {shown : List Char} (hkey : key.toList.all plain = true)
    (hshows : Shows shown value) :
    PrintsField (key.toList, shown) (entry key value) :=
  ⟨rfl, hkey, hshows⟩

theorem plain_strategyName (strategy : Strategy) :
    (strategyName strategy).toList.all plain = true := by
  cases strategy <;> decide

theorem plain_lifetimeName (lifetime : LifetimeTag) :
    (lifetimeName lifetime).toList.all plain = true := by
  cases lifetime <;> decide

theorem plain_phaseName (phase : Phase) (blacklisted : Bool) :
    (phaseName phase blacklisted).toList.all plain = true := by
  cases phase <;> cases blacklisted <;> decide

theorem plain_deoptReasonName (reason : DeoptReason) :
    (deoptReasonName reason).toList.all plain = true := by
  cases reason <;> decide

theorem shows_siteObject (site : CallSiteSummary) :
    Shows (siteObject site) (siteValue site) := by
  refine shows_object '}' [] ?_ (by decide) (by decide)
    (by decide) (by decide)
  exact
    .cons (printsField_number (by decide) _)
    (.cons (printsField_number (by decide) _)
    (.cons (printsField_number (by decide) _)
    (.cons (printsField_number (by decide) _)
    (.cons (printsField_number (by decide) _)
    (.cons (printsField_number (by decide) _)
    (.cons (printsField_text (by decide) (plain_phaseName _ _))
    (.cons (printsField_text (by decide) (plain_strategyName _))
    (.cons (printsField_text (by decide) (plain_lifetimeName _))
    (.cons (printsField_number (by decide) _)
    (.cons (printsField_text (by decide) (plain_deoptReasonName _))
    (.cons (printsField_boolean (by decide) _)
    (.cons (printsField_number (by decide) _) .nil))))))))))))

theorem shows_countsObject {counts : List (List Char × ℕ)}
    (hplain : ∀ count ∈ counts, count.1.all plain = true) :
    Shows (countsObject counts) (countsValue counts) := by
  refine shows_object '}' [] ?_ (by decide) (by decide)
    (by decide) (by decide)
  rw [List.forall₂_map_left_iff, List.forall₂_map_right_iff,
    List.forall₂_same]
  exact fun count hcount => ⟨rfl, hplain count hcount, shows_number count.2⟩

theorem plain_counted {α : Type*} {name : α → String} {count : α → ℕ}
    (hname : ∀ item, (name item).toList.all plain = true) (all : List α) :
    ∀ entry ∈ counted name count all, entry.1.all plain = true := by
  intro entry hentry
  obtain ⟨item, -, rfl⟩ := List.mem_map.mp hentry
  exact hname item

theorem shows_summaryObject (sum : Summary) (jitAllocs genericAllocs : ℕ) :
    Shows (summaryObject sum jitAllocs genericAllocs)
      (summaryValue sum jitAllocs genericAllocs) := by
  refine shows_object '\n' "  \x7d".toList ?_ (by decide)
    (by decide) (by decide) (by decide)
  exact
    .cons (printsField_number (by decide) _)
    (.cons (printsField_number (by decide) _)
    (.cons (printsField_number (by decide) _)
    (.cons (printsField_number (by decide) _)
    (.cons (printsField_number (by decide) _)
    (.cons (printsField_number (by decide) _)
    (.cons (printsField_number (by decide) _)
    (.cons (printsField_value (by decide)
      (shows_countsObject (plain_counted plain_strategyName _)))
    (.cons (printsField_value (by decide)
      (shows_countsObject (plain_counted plain_lifetimeName _))) .nil))))))))

/-- The lines of the sites are the items of an array that is closed behind
them. -/
theorem scans_siteLines (site : CallSiteSummary)
    (rest : List CallSiteSummary) {more : List Char} {tokens : List Token}
    (hscans : Scans more (.mark .rightBracket :: tokens)) :
    Scans (siteLines (site :: rest) ++ more)
      ((siteValue site).tokens ++ (itemTokens (rest.map siteValue) ++
        tokens)) := by
  have hindent : Scans "    ".toList [] := by decide
  induction rest generalizing site with
  | nil =>
      have hnewline : Scans ['\n'] [] := by decide
      have hobject := shows_siteObject site '\n' more _ (by decide)
        (hnewline.append hscans)
      have hline := hindent.append hobject
      simpa [siteLines, itemTokens] using hline
  | cons other rest ih =>
      have hcomma : Scans [',', '\n'] [.mark .comma] := by decide
      have hobject := shows_siteObject site ','
        ('\n' :: (siteLines (other :: rest) ++ more)) _ (by decide)
        (hcomma.append (ih other))
      have hline := hindent.append hobject
      simpa [siteLines, itemTokens] using hline

theorem shows_sites (sites : List CallSiteSummary) :
    Shows ("[\n".toList ++ (siteLines sites ++ "  ]".toList))
      (.array (sites.map siteValue)) := by
  intro c more tokens _ hscans
  have hopening : Scans "[\n".toList [.mark .leftBracket] := by decide
  have hclosing : Scans "  ]".toList [.mark .rightBracket] := by decide
  have hend := hclosing.append hscans
  cases sites with
  | nil => simpa [siteLines, Value.tokens] using hopening.append hend
  | cons site rest =>
      have hall := hopening.append (scans_siteLines site rest hend)
      simpa [Value.tokens] using hall

/-- Whatever the table of sites and the counters, the dump is a JSON text, and
it is read as the summary of the table and its sites in their order. -/
theorem parse_dumpStats (analyzer : Analyzer) (jitAllocs genericAllocs : ℕ) :
    parse (dumpStats analyzer jitAllocs genericAllocs) =
      some (dumpValue analyzer jitAllocs genericAllocs) := by
  have hfields : List.Forall₂ PrintsField
      [("summary".toList, summaryObject (buildSummary analyzer.summaries)
          jitAllocs genericAllocs),
        ("sites".toList, "[\n".toList ++ (siteLines analyzer.summaries ++
          "  ]".toList))]
      [entry "summary" (summaryValue (buildSummary analyzer.summaries)
          jitAllocs genericAllocs),
        entry "sites" (.array (analyzer.summaries.map siteValue))] :=
    .cons (printsField_value (by decide) (shows_summaryObject _ _ _))
      (.cons (printsField_value (by decide) (shows_sites _)) .nil)
  have hopening : Scans "\x7b\n  ".toList [.mark .leftBrace] := by decide
  have hseparator : Scans ",\n  ".toList [.mark .comma] := by decide
  have hclosing : Scans "\n\x7d\n".toList [.mark .rightBrace] := by decide
  have hnothing : Scans [] [] := rfl
  have hall := scans_object '\n' ['}', '\n'] hfields hopening hseparator
    (by decide) hclosing hnothing
  rw [List.append_nil, List.append_nil] at hall
  exact parse_of_scans hall

end Reading

end TbjitAlloc.Dump
