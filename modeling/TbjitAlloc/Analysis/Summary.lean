import TbjitAlloc.Analysis.KsTest

/-!
# Call-site summaries

What the analyzer remembers about one call site.  Lists stand for arrays with a
length: the outstanding allocations of `lifo_stack`, the learned size classes
and the histogram entries.
-/

namespace TbjitAlloc.Analysis

inductive Phase
  | preSpec
  | compiled
  | deopt
  deriving DecidableEq, Repr

inductive LifetimeTag
  | unknown
  | reap
  | hold
  deriving DecidableEq, Repr

inductive DeoptReason
  | none
  | sizeDrift
  | regionExhaust
  | threadShift
  | lifoViolation
  | other
  deriving DecidableEq, Repr

/-! ## Windows -/

@[ext] structure SizeWindow where
  hist : ExactHistogram
  count : ℕ
  deriving DecidableEq

namespace SizeWindow

/-- The window `reset` leaves. -/
def empty : SizeWindow := ⟨.empty, 0⟩

def record (window : SizeWindow) (size : ℕ) : SizeWindow :=
  ⟨window.hist.record size, window.count + 1⟩

/-- `full`, when `window_size()` is `windowSize`. -/
def full (window : SizeWindow) (windowSize : ℕ) : Bool :=
  windowSize ≤ window.count

/-- The window of a list of sizes. -/
def ofSizes (sizes : List ℕ) : SizeWindow :=
  ⟨.ofSizes sizes, sizes.length⟩

@[simp] theorem ofSizes_nil : ofSizes [] = empty := rfl

@[simp] theorem ofSizes_count (sizes : List ℕ) :
    (ofSizes sizes).count = sizes.length := rfl

@[simp] theorem ofSizes_hist (sizes : List ℕ) :
    (ofSizes sizes).hist = .ofSizes sizes := rfl

theorem record_ofSizes (sizes : List ℕ) (size : ℕ) :
    (ofSizes sizes).record size = ofSizes (sizes ++ [size]) := by
  simp [record, ofSizes]

end SizeWindow

/-! ## Thread and site concentration -/

structure ThreadDist where
  topTid : ℕ
  topCount : ℕ
  total : ℕ
  deriving DecidableEq

def ThreadDist.record (dist : ThreadDist) (tid : ℕ) : ThreadDist :=
  let dist := { dist with total := (dist.total + 1) % 2 ^ 32 }
  if dist.topCount = 0 ∨ tid = dist.topTid then
    { dist with topTid := tid, topCount := (dist.topCount + 1) % 2 ^ 32 }
  else if dist.topCount - 1 = 0 then { dist with topTid := tid, topCount := 1 }
  else { dist with topCount := dist.topCount - 1 }

structure PairCandidate where
  freeSite : ℕ
  pairCount : ℕ
  lifoCount : ℕ
  deriving DecidableEq

/-- The majority vote over freeing sites. -/
def PairCandidate.vote (pair : PairCandidate) (site : ℕ) : PairCandidate :=
  if pair.pairCount = 0 ∨ pair.freeSite = site then
    { pair with
      freeSite := site
      pairCount := (pair.pairCount + 1) % 2 ^ 32 }
  else if pair.pairCount - 1 = 0 then ⟨site, 1, 0⟩
  else { pair with pairCount := pair.pairCount - 1 }

/-! ## Summaries -/

structure CallSiteSummary where
  id : ℕ
  phase : Phase
  eventCount : ℕ
  freeCount : ℕ
  stableWindows : ℕ
  deoptCount : ℕ
  blacklisted : Bool
  deoptReason : DeoptReason
  lifetime : LifetimeTag
  firstCompileEvents : ℕ
  allocDist : ThreadDist
  freeDist : ThreadDist
  windows : Fin 2 → SizeWindow
  active : Fin 2
  classes : List Mode
  lifoStack : List ℕ
  topPair : PairCandidate
  baseline : ExactHistogram
  postWindow : SizeWindow
  candidate : Strategy
  codePage : Option ℕ

namespace CallSiteSummary

/-- `CallSiteSummary{}` with its id set. -/
def fresh (id : ℕ) : CallSiteSummary where
  id := id
  phase := .preSpec
  eventCount := 0
  freeCount := 0
  stableWindows := 0
  deoptCount := 0
  blacklisted := false
  deoptReason := .none
  lifetime := .unknown
  firstCompileEvents := 0
  allocDist := ⟨0, 0, 0⟩
  freeDist := ⟨0, 0, 0⟩
  windows := fun _ => .empty
  active := 0
  classes := []
  lifoStack := []
  topPair := ⟨0, 0, 0⟩
  baseline := .empty
  postWindow := .empty
  candidate := .generic
  codePage := none

/-- Reset both windows and the streak, as a deopt does. -/
def restartWindows (summary : CallSiteSummary) : CallSiteSummary :=
  { summary with
    stableWindows := 0
    windows := fun _ => .empty
    active := 0 }

/-- Switch to the other window and clear it. -/
def rotate (summary : CallSiteSummary) : CallSiteSummary :=
  { summary with
    active := 1 - summary.active
    windows := Function.update summary.windows (1 - summary.active) .empty }

/-- Record a size in the active window. -/
def recordActive (summary : CallSiteSummary) (size : ℕ) : CallSiteSummary :=
  { summary with
    windows := Function.update summary.windows summary.active
      ((summary.windows summary.active).record size) }

/-- Record a size in the window checked for drift. -/
def recordPost (summary : CallSiteSummary) (size : ℕ) : CallSiteSummary :=
  { summary with postWindow := summary.postWindow.record size }

theorem other_ne (active : Fin 2) : 1 - active ≠ active := by
  revert active
  decide

theorem other_other (active : Fin 2) : 1 - (1 - active) = active := by
  revert active
  decide

@[simp] theorem recordActive_active (summary : CallSiteSummary) (size : ℕ) :
    (summary.recordActive size).windows (summary.recordActive size).active =
      (summary.windows summary.active).record size :=
  Function.update_self _ _ _

@[simp] theorem recordActive_other (summary : CallSiteSummary) (size : ℕ) :
    (summary.recordActive size).windows
        (1 - (summary.recordActive size).active) =
      summary.windows (1 - summary.active) :=
  Function.update_of_ne (other_ne _) _ _

@[simp] theorem rotate_active (summary : CallSiteSummary) :
    summary.rotate.windows summary.rotate.active = .empty :=
  Function.update_self _ _ _

@[simp] theorem rotate_other (summary : CallSiteSummary) :
    summary.rotate.windows (1 - summary.rotate.active) =
      summary.windows summary.active := by
  change Function.update summary.windows (1 - summary.active) .empty
    (1 - (1 - summary.active)) = _
  rw [other_other, Function.update_of_ne (other_ne _).symm]

def activeHist (summary : CallSiteSummary) : ExactHistogram :=
  (summary.windows summary.active).hist

/-- The histograms `advance_prespec` compares: the window just filled and the
one before it, if that holds anything. -/
def prespecTest (summary : CallSiteSummary) :
    Option (ExactHistogram × ExactHistogram) :=
  let previous := summary.windows (1 - summary.active)
  if 0 < previous.count then some (summary.activeHist, previous.hist)
  else none

/-- `LIFO_STACK` depth. -/
def lifoDepth : ℕ := 16

/-- Push an allocation; the oldest entry gives way when the stack is full. -/
def pushLifo (stack : List ℕ) (ptr : ℕ) : List ℕ :=
  if ptr = 0 then stack
  else if stack.length < lifoDepth then stack ++ [ptr]
  else stack.tail ++ [ptr]

/-- The bookkeeping of an allocation before the phase switch. -/
def recordAlloc (summary : CallSiteSummary) (event : AllocEvent) :
    CallSiteSummary :=
  { summary with
    eventCount := summary.eventCount + 1
    allocDist := summary.allocDist.record event.threadId
    lifoStack := pushLifo summary.lifoStack event.ptr
    phase := if summary.phase = .deopt then .preSpec else summary.phase }

/-- The freed pointer is the newest outstanding allocation. -/
def lifoTop (summary : CallSiteSummary) (ptr : ℕ) : Bool :=
  summary.lifoStack.getLast? = some ptr

/-- The pairing statistics after a free of a pointer no segment manages. -/
def freedPair (summary : CallSiteSummary) (event : AllocEvent) :
    PairCandidate :=
  let pair := summary.topPair.vote event.callSite
  if summary.lifoTop event.ptr ∧ pair.freeSite = event.callSite then
    { pair with lifoCount := (pair.lifoCount + 1) % 2 ^ 32 }
  else pair

/-- The bookkeeping of a free on the allocating site. -/
def recordFree (summary : CallSiteSummary) (managed : Bool)
    (event : AllocEvent) : CallSiteSummary :=
  { summary with
    freeCount := summary.freeCount + 1
    freeDist := summary.freeDist.record event.threadId
    topPair := if managed then summary.topPair else summary.freedPair event
    lifoStack :=
      if ¬managed ∧ summary.lifoTop event.ptr then
        summary.lifoStack.dropLast
      else summary.lifoStack }

@[simp] theorem recordFree_id (summary : CallSiteSummary) (managed : Bool)
    (event : AllocEvent) : (summary.recordFree managed event).id = summary.id :=
  rfl

end CallSiteSummary

end TbjitAlloc.Analysis
