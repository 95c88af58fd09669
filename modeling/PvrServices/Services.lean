import Mathlib.Tactic.Common

set_option autoImplicit false

/-! Error codes and the allocator of the operating-system layer, as every module sees them. -/
namespace PvrServices

inductive PvrsrvError where
  | ok
  | errorGeneric
  | errorOutOfMemory
  | errorInvalidParams
  | errorFailedDependencies
  | errorCmdNotProcessed
  | errorCmdTooBig
  | errorNotSupported
  | errorCannotGetQueueSpace
  | errorNotOwner
  | errorBadMapping
  | errorTimeout
  | errorRetry
  | errorProcessingBlocked
  | errorInvalidDevice
  | errorTooManyBuffers
  | errorTooFewBuffers
  | errorCannotFlushQueue
  | errorFlipChainExists
deriving DecidableEq, Repr

/-- The allocator seen from its callers: the `n`-th call of `OSAllocMem` succeeds or fails. -/
structure Os where
  grants : ℕ → Bool
  calls : ℕ

def osAllocMem (os : Os) : Bool × Os := (os.grants os.calls, { os with calls := os.calls + 1 })

@[simp] theorem osAllocMem_grants (os : Os) : (osAllocMem os).2.grants = os.grants := rfl

end PvrServices
