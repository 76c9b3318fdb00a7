import RemoteSession.Http.Exchange
import RemoteSession.Service.Error

/-!
# Requests to the service

The requests that the service answers: tickets for streams, the directory of
sessions, the engines that it can start, and whether it is well. All but the
last carry the credential of the endpoint.
-/

namespace RemoteSession

open Json

/-- A service at an endpoint, and the way to it. -/
structure Service where
  endpoint : Endpoint
  network : Http.Network

namespace Service

/-- The service that is configured. -/
def ofConfig (c : Config) (network : Http.Network) : Except ServiceError Service :=
  match c.endpoint with
  | .ok endpoint => .ok ⟨endpoint, network⟩
  | .error e => .error (.invalidConfig e)

/-- A request with the credential. -/
def request (s : Service) (method : Http.Method) (path : String) (body : Option String) :
    Http.Request :=
  ⟨method, s.endpoint.urlFor path, s.endpoint.token, body⟩

/-- What is said of a credential that no header may hold. -/
def unsendableDetail : String := "builder error: failed to parse header value"

/-- The response to a request. -/
def send (s : Service) (r : Http.Request) : Except ServiceError Http.Response :=
  if (r.authorization.map Http.isHeaderText).getD true then
    match s.network r with
    | .ok response => .ok response
    | .error detail => .error (.network detail)
  else .error (.network unsendableDetail)

/-- What a response that is a success says. -/
def read {α : Type} (decode? : String → Option α) (response : Http.Response) :
    Except ServiceError α :=
  if response.status.isSuccess then
    match decode? response.text with
    | some value => .ok value
    | none => .error (.invalidResponse "")
  else .error (.ofResponse response.status response.text)

/-- What is said of a grant without a ticket. -/
def missingTicket : String := "missing ws ticket"

/-- The ticket of a grant, without blanks around it. -/
def ticketOf (grant : TicketGrant) : Except ServiceError String :=
  match grant.ticket.map Text.trim with
  | none => .error (.invalidResponse missingTicket)
  | some ticket => if ticket = "" then .error (.invalidResponse missingTicket) else .ok ticket

/-- A ticket for one stream. -/
def issueTicket (s : Service) : Except ServiceError String := do
  let response ← s.send (s.request .post "/api/ws-ticket" (some "{}"))
  ticketOf (← read TicketGrant.decode? response)

/-- All sessions. -/
def listSessions (s : Service) : Except ServiceError (List SessionInfo) := do
  read SessionInfo.decodeAll? (← s.send (s.request .get "/api/sessions" none))

/-- A new session. -/
def createSession (s : Service) (c : CreateSession) : Except ServiceError SessionInfo := do
  read SessionInfo.decode? (← s.send (s.request .post "/api/sessions" (some c.body)))

/-- The end of a session. One that is not there has ended. -/
def terminateSession (s : Service) (id : String) : Except ServiceError Unit := do
  let response ← s.send (s.request .post ("/api/sessions/" ++ id ++ "/terminate") none)
  if response.status.isSuccess || response.status = .notFound then .ok ()
  else .error (.ofResponse response.status response.text)

/-- The engines of a text. -/
def engines? (text : String) : Option (List String) :=
  match Document.parse? text with
  | some (.array items) => items.mapM Document.text?
  | _ => none

/-- The engines that the service can start. -/
def listEngines (s : Service) : Except ServiceError (List String) := do
  read engines? (← s.send (s.request .get "/api/engines" none))

/-- Whether the service is well. -/
def isHealthy (s : Service) : Except ServiceError Bool := do
  let r : Http.Request := ⟨.get, s.endpoint.urlFor "/healthz", none, none⟩
  .ok (← s.send r).status.isSuccess

end Service

end RemoteSession
