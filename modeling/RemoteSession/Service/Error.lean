import RemoteSession.Config.Basic
import RemoteSession.Http.Status
import RemoteSession.Session.Directory

/-!
# Failed requests

Why a request to the service failed. A response that is no success becomes an
error by its status and by the fault that its body reports, if it reports one:
a status of 401 is always `unauthorized`, and no other status is.
-/

namespace RemoteSession

/-- Why a request failed. -/
inductive ServiceError where
  | invalidConfig (error : ConfigError)
  | network (detail : String)
  | unauthorized (detail : String)
  | fault (status : Http.Status) (code message : String)
  | refused (status : Http.Status)
  | invalidResponse (detail : String)
deriving DecidableEq, Repr

namespace ServiceError

/-- The message of an error. -/
def message : ServiceError → String
  | .invalidConfig e => "invalid configuration: " ++ e.message
  | .network detail => "network error: " ++ detail
  | .unauthorized detail => "unauthorized: " ++ detail
  | .fault status code text => code ++ " (" ++ status.text ++ "): " ++ text
  | .refused status => "HTTP " ++ status.text
  | .invalidResponse detail => "invalid response: " ++ detail

/-- Whether another credential could help. -/
def isUnauthorized : ServiceError → Bool
  | .unauthorized _ => true
  | _ => false

/-- What is said of a credential when the service says nothing. -/
def rejectedDetail : String := "credential rejected"

/-- The code of a fault that has none. -/
def defaultCode : String := "error"

/-- The detail of a rejection. -/
def rejection (fault : Option Fault) : String :=
  match fault.map Fault.summary with
  | some summary => if summary = "" then rejectedDetail else summary
  | none => rejectedDetail

/-- The error of a status and of what the body reports. -/
def ofFault (status : Http.Status) (fault : Option Fault) : ServiceError :=
  if status = .unauthorized then .unauthorized (rejection fault)
  else
    match fault with
    | some f => .fault status (f.code.getD defaultCode) f.summary
    | none => .refused status

/-- The error of a response that is no success. -/
def ofResponse (status : Http.Status) (body : String) : ServiceError :=
  ofFault status ((FaultReport.decode? body).bind FaultReport.fault)

/-- A response is a rejection of the credential exactly when its status says
so. -/
theorem isUnauthorized_ofResponse (status : Http.Status) (body : String) :
    (ofResponse status body).isUnauthorized = decide (status = .unauthorized) := by
  unfold ofResponse ofFault
  by_cases h : status = .unauthorized
  · simp [h, isUnauthorized]
  · cases (FaultReport.decode? body).bind FaultReport.fault <;> simp [h, isUnauthorized]

end ServiceError

end RemoteSession
