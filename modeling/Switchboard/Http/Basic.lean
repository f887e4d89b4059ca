import Switchboard.Fault
import Switchboard.Json.Reader

/-!
# HTTP exchanges

* `HttpRequest` : a request that can be sent again; `HttpRequest.withJson` : give it a JSON body;
* `HttpResponse` : an answer; `HttpResponse.check` : an answer sorted into faults by its status;
* `Transport` : how an exchange ends below HTTP.
-/

namespace Switchboard

/-- A request that can be sent again. -/
structure HttpRequest where
  method : String
  url : String
  headers : List (String × String) := []
  body : Option String := none
  deriving DecidableEq, Repr, Inhabited

namespace HttpRequest

/-- A request for a resource. -/
def get (url : String) : HttpRequest := { method := "GET", url }

/-- A request that hands something in. -/
def post (url : String) : HttpRequest := { method := "POST", url }

/-- Add a header. -/
def withHeader (r : HttpRequest) (name value : String) : HttpRequest :=
  { r with headers := r.headers ++ [(name, value)] }

/-- Send a JSON value: a header tells the type, and a body given before is replaced. -/
def withJson (r : HttpRequest) (v : Json) : HttpRequest :=
  { r.withHeader "content-type" "application/json" with body := some v.compact }

end HttpRequest

/-- An answer. -/
structure HttpResponse where
  status : UInt16
  headers : List (String × String) := []
  body : List UInt8 := []
  deriving DecidableEq, Repr, Inhabited

namespace HttpResponse

/-- Statuses from 200 to 299. -/
def isSuccess (r : HttpResponse) : Bool := 200 ≤ r.status && r.status < 300

/-- The body as text, bytes that are no text replaced. -/
def text (r : HttpResponse) : String := Utf8.decodeLossy r.body

/-- The body as a JSON value of one type. -/
def json {α : Type} (r : HttpResponse) (read : Reading α) : Except Fault α :=
  match (Written.ofBytes? r.body).bind read.ofText? with
  | some a => .ok a
  | none => .error (.json "the body is not of the expected form")

/-- The fault of a status that is neither success nor redirection. -/
def statusFault (status : UInt16) (url : String) : Fault :=
  let text := url ++ " returned HTTP " ++ toString status.toNat
  if status = 401 ∨ status = 403 then .authentication text
  else if status = 429 then .unavailable text (some 60) (some status) none
  else if 500 ≤ status then .unavailable text (some 10) (some status) none
  else .invalidParameter text

/-- The answer if its status is success or redirection, else the fault. -/
def check (r : HttpResponse) (url : String) : Except Fault HttpResponse :=
  if r.isSuccess || (300 ≤ r.status && r.status < 400) then .ok r
  else .error (statusFault r.status url)

end HttpResponse

/-- How an exchange ends. -/
inductive Exchange where
  | answered (response : HttpResponse)
  | timedOut (text : String)
  | notConnected (text : String)
  | failed (text : String)
  deriving DecidableEq, Repr, Inhabited

end Switchboard
