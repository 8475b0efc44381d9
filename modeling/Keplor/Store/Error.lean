import Mathlib.Tactic.Common

/-!
# `keplor-store/src/error.rs` — errors of the store

The variants the modelled code raises. `Migration` belongs to the SQLite path and is not among them.
-/

set_option autoImplicit false

namespace Keplor.Store

/-- `StoreError` -/
inductive StoreError where
  | internal (message : String)
  | io (message : String)
  | other (message : String)
  | channelFull
  | channelClosed
  | lockPoisoned (message : String)
  | archiveS3 (message : String)
  deriving DecidableEq, Repr

/-- The error's text. -/
def StoreError.display : StoreError → String
  | internal message => "internal: " ++ message
  | io message => "io: " ++ message
  | other message => message
  | channelFull => "batch writer channel full"
  | channelClosed => "batch writer channel closed"
  | lockPoisoned message => "lock poisoned: " ++ message
  | archiveS3 message => "archive (s3): " ++ message

end Keplor.Store
