import Mathlib

/-!
# Shared vocabulary

The types every component uses: the identifier of a call site, the allocation
strategies, and the event a thread records about one call.  Machine integers
are natural numbers.  A pointer is its address, and the null pointer is zero.
-/

namespace TbjitAlloc

/-- A hashed return address. -/
abbrev CallSiteID := ℕ

inductive Strategy
  | generic
  | bumpAlloc
  | threadLocalFreeList
  | epochArena
  | pairedStack
  | producerConsumer
  | multiSizeFreeList
  deriving DecidableEq, Repr

/-- One recorded call.  A free is recorded with size zero. -/
structure AllocEvent where
  callSite : ℕ
  size : ℕ
  threadId : ℕ
  ptr : ℕ
  deriving DecidableEq, Repr

end TbjitAlloc
