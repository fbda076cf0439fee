import SpendScript.Crypto.ScriptSignature
import SpendScript.Http.MediaType
import SpendScript.Http.Target
import SpendScript.Json.Record
import SpendScript.Report.Data
import SpendScript.Text.Quoted
import SpendScript.Text.Words

/-!
# The service

What the service answers to a request: it tells that it is there, runs spends, compiles source
texts and lists code.  Requests and answers are JSON.
-/

namespace SpendScript

namespace Http

open Json (Value FieldForm Record RecordError)

/-- A request. -/
structure Request where
  /-- The method. -/
  method : String
  /-- What the request is about. -/
  target : String
  /-- The header fields. -/
  headers : List (String × String)
  /-- The body. -/
  body : Bytes

/-- The answer to a request. -/
structure Response where
  /-- The status code. -/
  status : Nat
  /-- The body, if it is JSON. -/
  body : Option Value := none
  /-- The methods that the path knows. -/
  allow : Option String := none
  /-- Whose pages may see the answer: everybody's. -/
  allowOrigin : String := "*"

/-- The version of the service. -/
def version : String := "0.1.0"

/-- Most bytes of a body. -/
def maxBodySize : Nat := 2097152

/-! ### What can be asked -/

/-- The paths that the service knows. -/
inductive Route
  | health | run | debug | compile | disassemble
  deriving Repr, DecidableEq

namespace Route

/-- The path. -/
def path : Route → String
  | .health => "/health"
  | .run => "/api/run"
  | .debug => "/api/debug"
  | .compile => "/api/compile"
  | .disassemble => "/api/disassemble"

/-- The routes. -/
def all : List Route := [.health, .run, .debug, .compile, .disassemble]

/-- The route of a request target, whatever its query. -/
def ofTarget? (target : String) : Option Route := do
  let path ← Target.path? target
  all.find? fun route => route.path == path

/-- The methods that the route knows. -/
def allow : Route → String
  | .health => "GET,HEAD"
  | _ => "POST"

/-- The texts in a request. -/
def fields : Route → List FieldForm
  | .health => []
  | .run | .debug =>
    [⟨["scriptSig", "ScriptSig"], false⟩, ⟨["scriptPubKey", "ScriptPubKey"], false⟩]
  | .compile => [⟨["script"], true⟩]
  | .disassemble => [⟨["hex"], true⟩]

end Route

/-! ### What is answered -/

/-- The body of an answer, or the sentence that says why there is none. -/
abbrev Answer := Except String Value

/-- That the service is there. -/
def health : Value :=
  .object [("status", .string "ok"), ("version", .string version)]

/-- The spend of a request. -/
def spendOf (record : Record) : Spend :=
  ⟨record.get "scriptSig", record.get "scriptPubKey"⟩

/-- The verdict on a spend whose texts are not too long. -/
def run (digest : Digest) (spend : Spend) : Answer :=
  match spend.validate with
  | .ok _ => .ok (spend.run .standard digest).toValue
  | .error e => .error e.message

/-- The verdict on a spend whose texts are not too long, with its steps. -/
def debug (digest : Digest) (spend : Spend) : Answer :=
  match spend.validate with
  | .ok _ => .ok (spend.debug .standard digest).toValue
  | .error e => .error e.message

/-- The code of a source text that is not too long. -/
def compile (source : String) : Answer :=
  let length := (Source.stripComments source).length
  if length > Source.maxLength then
    .error s!"Script exceeds maximum length: {length} characters"
  else match Source.assemble source with
    | .ok code => .ok (Report.codeValue code)
    | .error e => .error ("Compilation failed: " ++ e.message)

/-- The listing of code in hexadecimal, perhaps between blanks. -/
def disassemble (hex : String) : Answer :=
  match Hex.decode (Text.trim hex.toList) with
  | .ok code => .ok (Report.listingValue code)
  | .error e => .error ("Invalid hex bytecode: " ++ e.message)

/-- The answer to a request that could be read. -/
def answer (digest : Digest) (record : Record) : Route → Answer
  | .health => .ok health
  | .run => run digest (spendOf record)
  | .debug => debug digest (spendOf record)
  | .compile => compile (record.get "script")
  | .disassemble => disassemble (record.get "hex")

/-! ### Requests -/

/-- A header field, whatever the case of its name. -/
def Request.header? (request : Request) (name : String) : Option String :=
  (request.headers.find? fun field => field.1.toLower == name).map (·.2)

/-- The request says that its body is JSON. -/
def Request.isJson (request : Request) : Bool :=
  ((request.header? "content-type").bind MediaType.read?).any MediaType.isJson

/-- Answers a request with a body: first its media type is looked at, then its size, then the body
itself. -/
def Route.respond (digest : Digest) (request : Request) (route : Route) : Response :=
  if !request.isJson then { status := 415 }
  else if request.body.length > maxBodySize then { status := 413 }
  else match Record.read route.fields request.body with
    | .error .malformed => { status := 400 }
    | .error .wrongShape => { status := 422 }
    | .ok record => match answer digest record route with
      | .ok value => { status := 200, body := some value }
      | .error message =>
        { status := 400, body := some (.object [("error", .string message)]) }

/-- Answers a request, checking signatures against a digest. -/
def respond (digest : Digest) (request : Request) : Response :=
  match Route.ofTarget? request.target, request.method with
  | route, "OPTIONS" => { status := 200, allow := route.map Route.allow }
  | none, _ => { status := 404 }
  | some .health, "GET" => { status := 200, body := some health }
  | some .health, "HEAD" => { status := 200 }
  | some .health, _ => { status := 405, allow := some (Route.allow .health) }
  | some route, "POST" => route.respond digest request
  | some route, _ => { status := 405, allow := some route.allow }

end Http

end SpendScript
