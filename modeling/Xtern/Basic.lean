import Mathlib.Data.List.Basic

/-! # Basic vocabulary of the record runtime

Thread ids, the runtime options the wrappers read (`tern/options.h`), and the `syncfunc` codes
the event log stores. `numRecordsForSync` is `NumRecordsForSync` of the log definitions: the
number of records one call of a sync operation appends to a thread's log. -/

namespace Xtern

/-- Logical thread ids, dense from the main thread `0`. -/
abbrev Tid := Nat

/-- The options the wrappers consult. -/
structure Options where
  logSync : Bool
  enforceNonDetAnnotations : Bool
  launchIdleThread : Bool
  nanosecPerTurn : Nat
  ignoreRwRegularFile : Bool
  execSleep : Bool
  deriving DecidableEq, Repr

/-- The `syncfunc` codes the turn-based wrappers log. -/
inductive SyncOp where
  | ternIdle | ternThreadBegin | ternThreadEnd | pthreadCreate | pthreadJoin
  | pthreadMutexInit | pthreadMutexDestroy | pthreadMutexLock | pthreadMutexTrylock
  | pthreadMutexTimedlock | pthreadMutexUnlock
  | pthreadRwlockInit | pthreadRwlockRdlock | pthreadRwlockWrlock | pthreadRwlockTryrdlock
  | pthreadRwlockTrywrlock | pthreadRwlockUnlock | pthreadRwlockDestroy
  | pthreadBarrierInit | pthreadBarrierWait | pthreadBarrierDestroy
  | pthreadCondWait | pthreadCondTimedwait | pthreadCondSignal | pthreadCondBroadcast
  | semWait | semTrywait | semTimedwait | semPost | semInit
  | ternLineupInit | ternLineupDestroy | ternLineupStart | ternLineupEnd
  | ternNonDetStart | ternSymbolic | fork | schedYield | sleep | usleep | nanosleep
  deriving DecidableEq, Repr

/-- `NumRecordsForSync(sync)`: two records (first and second half) for the operations that
give up the turn in the middle, one for every other operation. -/
def numRecordsForSync : SyncOp → Nat
  | .pthreadCondWait | .pthreadBarrierWait | .pthreadCondTimedwait => 2
  | _ => 1

end Xtern
