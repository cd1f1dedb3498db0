import TbjitAlloc.Common

/-!
# Which routines are compiled

`compile` checks a routine specification and takes a slot number before it
emits any code.  The checks are those of the source, strategy by strategy; the
page a successful call returns is whatever `mmap` answered.
-/

namespace TbjitAlloc.Codegen

/-- `ExactHistogram::MAX_SIZE`. -/
def maxSize : ℕ := 4096

/-- `MAX_COMPILED_SITES`. -/
def maxCompiledSites : ℕ := 4096

/-- `sizeof(void*)`. -/
def pointerSize : ℕ := 8

/-- `MULTI_MAX_CLASSES`. -/
def multiMaxClasses : ℕ := 4

structure RoutineSpec where
  id : ℕ
  strategy : Strategy
  size : ℕ
  classSizes : ℕ → ℕ
  classCount : ℕ

/-- The strategies with an emitter. -/
def hasEmitter (strategy : Strategy) : Bool :=
  strategy ≠ .generic

/-- The checks `compile` makes on a specification. -/
def compileAccepts (spec : RoutineSpec) : Prop :=
  spec.size ≠ 0 ∧ spec.size < maxSize ∧
    hasEmitter spec.strategy = true ∧
    (spec.strategy = .threadLocalFreeList → pointerSize ≤ spec.size) ∧
    (spec.strategy = .multiSizeFreeList →
      spec.classCount ≠ 0 ∧ spec.classCount ≤ multiMaxClasses ∧
        ∀ i < spec.classCount, pointerSize ≤ spec.classSizes i)

instance (spec : RoutineSpec) : Decidable (compileAccepts spec) :=
  inferInstanceAs (Decidable (_ ∧ _ ∧ _ ∧ (_ → _) ∧ (_ → _)))

/-- `compile` when `g_next_index` is `nextIndex` and `mmap` returns `page`: the
routine's page, or nothing, and the counter afterwards.  A rejected specification
takes no slot; one that finds the slots used up does.  The counter has 32 bits,
so after `2^32` accepted specifications the slots are assigned anew. -/
def compile (nextIndex page : ℕ) (spec : RoutineSpec) : Option ℕ × ℕ :=
  if compileAccepts spec then
    (if nextIndex < maxCompiledSites then some page else none,
      (nextIndex + 1) % 2 ^ 32)
  else (none, nextIndex)

end TbjitAlloc.Codegen
