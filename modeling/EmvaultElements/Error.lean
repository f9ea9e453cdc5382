/-!
# Errors

The error types of the sync pipeline and of the wallet. The PSET errors
are with the PSET pipeline, since they carry a signer id.
-/

namespace EmvaultElements

/-- Errors from wallet construction and operations. -/
inductive WolletError where
  | descriptor (msg : String)
  | build (msg : String)
  | addressDerivation (msg : String)
  | unblind (msg : String)
deriving Repr, DecidableEq

/-- How the error is displayed. -/
def WolletError.toText : WolletError → String
  | .descriptor msg => "failed to parse wollet descriptor: " ++ msg
  | .build msg => "failed to build wollet: " ++ msg
  | .addressDerivation msg => "failed to derive address: " ++ msg
  | .unblind msg => "failed to unblind output: " ++ msg

/-- Errors from the block-scan pipeline. -/
inductive SyncError where
  | store (msg : String)
  | chainSource (msg : String)
  | encoding (msg : String)
  | wollet (e : WolletError)
deriving Repr, DecidableEq

end EmvaultElements
