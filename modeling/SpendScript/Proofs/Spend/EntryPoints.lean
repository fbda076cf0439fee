import SpendScript.Command.Exit
import SpendScript.Http.Service
import SpendScript.Proofs.Spend.Verdict

/-!
# One verdict from all sides

Spends are tried by commands, by processes that command lines start, and by a service that answers
requests.  Whoever asks gets the verdict that the evaluation amounts to (`Spend.agreement`).  The
service checks the lengths of the texts once more before that, so that it refuses those spends only
whose verdict would be an error about a length.

* `Verdict.states_toValue`, `TracedVerdict.states_toValue` : what a verdict says as data;
* `Command.exitOf_run`, `Command.exitOf_debug` : the exit codes of processes;
* `Http.delivers_run`, `Http.delivers_debug` : the answers of the service.
-/

namespace SpendScript

/-! ### Verdicts as data -/

/-- The entry of an object under a name. -/
def Json.Value.entry? (name : String) : Json.Value → Option Json.Value
  | .object entries => entries.lookup name
  | _ => none

/-- The value states the verdict: whether it is a success, and what went wrong iff something did. -/
structure Json.Value.States (value : Json.Value) (v : Verdict) : Prop where
  /-- There is an entry for success. -/
  success_eq : value.entry? "success" = some (.bool v.success)
  /-- There is one for an error iff there was one, and it is the sentence for that. -/
  error_eq : value.entry? "error" = v.error.map .string

theorem Verdict.states_toValue (v : Verdict) : v.toValue.States v := by
  obtain ⟨success, error⟩ := v
  cases error <;> exact ⟨rfl, rfl⟩

theorem TracedVerdict.states_toValue (v : TracedVerdict) : v.toValue.States v.verdict := by
  obtain ⟨trace, success, error⟩ := v
  cases error <;> exact ⟨rfl, rfl⟩

/-! ### Processes -/

namespace Command

variable {spend : Spend} {digest : Digest} {files : Files} {words : List String} {json : Bool}
  {scriptSig scriptPubKey : Origin} {given : Option String}

theorem code_ofOutput (text : String) (answer : Bool) :
    (Exit.ofOutput (.ok ⟨text, some answer⟩)).code = if answer then 0 else 1 := by
  cases answer <;> rfl

theorem exitOf_run
    (hwords : Invocation.ofWords words = .task (.run scriptSig scriptPubKey given) json)
    (hload : loadSpend files scriptSig scriptPubKey given = .ok (spend, digest)) :
    (exitOf files words).code = if (spend.run .standard digest).success then 0 else 1 := by
  rw [exitOf, hwords, Invocation.exit, Task.exit, hload]
  exact code_ofOutput _ _

theorem exitOf_debug
    (hwords : Invocation.ofWords words = .task (.debug scriptSig scriptPubKey given) json)
    (hload : loadSpend files scriptSig scriptPubKey given = .ok (spend, digest)) :
    (exitOf files words).code =
      if (spend.debug .standard digest).verdict.success then 0 else 1 := by
  rw [exitOf, hwords, Invocation.exit, Task.exit, hload]
  exact code_ofOutput _ _

end Command

/-! ### The service -/

namespace Http

/-- The request posts a spend to a route, as JSON and in a body that is not too large. -/
structure Request.Posts (request : Request) (route : Route) (spend : Spend) : Prop where
  /-- It is for the route. -/
  route_eq : Route.ofTarget? request.target = some route
  /-- It posts something. -/
  method_eq : request.method = "POST"
  /-- It says that this is JSON. -/
  isJson : request.isJson = true
  /-- The body is not too large. -/
  length_body_le : request.body.length ≤ maxBodySize
  /-- The body is the spend. -/
  exists_record : ∃ record, Json.Record.read route.fields request.body = .ok record ∧
    spendOf record = spend

/-- The request that posts a text as JSON. -/
def Request.postJson (target text : String) : Request where
  method := "POST"
  target := target
  headers := [("content-type", "application/json")]
  body := text.toUTF8.data.toList

/-- The response refuses the spend if a text of it is too long, and else holds a value, which states
a verdict. -/
structure Response.Delivers (response : Response) (spend : Spend) (v : Verdict)
    (value : Json.Value) : Prop where
  /-- It is refused iff a length is wrong. -/
  status_eq_iff : response.status = 400 ↔ ∃ e, spend.validate = .error e
  /-- Then the response says which. -/
  body_of_error : ∀ e, spend.validate = .error e →
    e.IsLength ∧ response.body = some (.object [("error", .string e.message)])
  /-- And otherwise it has the value. -/
  of_ok : ∀ checked, spend.validate = .ok checked →
    response.status = 200 ∧ response.body = some value ∧ value.States v

variable {spend : Spend} {digest : Digest} {request : Request} {v : Verdict} {value : Json.Value}

theorem isJson_postJson (target text : String) : (Request.postJson target text).isJson = true := by
  -- this is about the headers only
  change (Request.postJson "" "").isJson = true
  decide +kernel

theorem posts_postJson {target text : String} {route : Route} {record : Json.Record}
    (htarget : Route.ofTarget? target = some route)
    (hlength : text.toUTF8.data.toList.length ≤ maxBodySize)
    (hread : Json.Record.read route.fields text.toUTF8.data.toList = .ok record) :
    (Request.postJson target text).Posts route (spendOf record) :=
  ⟨htarget, rfl, isJson_postJson target text, hlength, record, hread, rfl⟩

theorem respond_of_posts {route : Route} (h : request.Posts route spend)
    (hroute : route ≠ .health) (digest : Digest) :
    ∃ record, spendOf record = spend ∧ respond digest request =
      match answer digest record route with
      | .ok value => { status := 200, body := some value }
      | .error message =>
        { status := 400, body := some (.object [("error", .string message)]) } := by
  obtain ⟨record, hread, hspend⟩ := h.exists_record
  have hrespond : respond digest request = route.respond digest request := by
    cases route with
    | health => exact absurd rfl hroute
    | run | debug | compile | disassemble => simp only [respond, h.route_eq, h.method_eq]
  have hjson : ¬ (!request.isJson) = true := by simp [h.isJson]
  have hsize : ¬ request.body.length > maxBodySize := Nat.not_lt.2 h.length_body_le
  refine ⟨record, hspend, hrespond.trans ?_⟩
  cases hanswer : answer digest record route <;>
    simp only [Route.respond, if_neg hjson, if_neg hsize, hread, hanswer]

theorem delivers_of_validate {response : Response} (hstates : value.States v)
    (hok : ∀ checked, spend.validate = .ok checked →
      response = { status := 200, body := some value })
    (herror : ∀ e, spend.validate = .error e →
      response = { status := 400, body := some (.object [("error", .string e.message)]) }) :
    response.Delivers spend v value := by
  cases hvalidate : spend.validate with
  | ok checked =>
    obtain rfl := hok checked hvalidate
    refine ⟨by simp [hvalidate], fun e he => ?_, fun _ _ => ⟨rfl, rfl, hstates⟩⟩
    exact absurd (hvalidate.symm.trans he) (by simp)
  | error e =>
    obtain rfl := herror e hvalidate
    refine ⟨by simp [hvalidate], fun e' he => ?_, fun checked hchecked => ?_⟩
    · obtain rfl := Except.error.inj (hvalidate.symm.trans he)
      exact ⟨Spend.isLength_of_validate hvalidate, rfl⟩
    · exact absurd (hvalidate.symm.trans hchecked) (by simp)

theorem delivers_run (h : request.Posts .run spend) :
    (respond digest request).Delivers spend (spend.run .standard digest)
      (spend.run .standard digest).toValue := by
  obtain ⟨record, rfl, hrespond⟩ := respond_of_posts h (by simp) digest
  refine delivers_of_validate (Verdict.states_toValue _) (fun checked hchecked => ?_) fun e he => ?_
  · rw [hrespond, answer, run, hchecked]
  · rw [hrespond, answer, run, he]

theorem delivers_debug (h : request.Posts .debug spend) :
    (respond digest request).Delivers spend (spend.run .standard digest)
      (spend.debug .standard digest).toValue := by
  obtain ⟨record, rfl, hrespond⟩ := respond_of_posts h (by simp) digest
  have hstates := (spendOf record).debug .standard digest |>.states_toValue
  rw [Spend.verdict_debug] at hstates
  refine delivers_of_validate hstates (fun checked hchecked => ?_) fun e he => ?_
  · rw [hrespond, answer, debug, hchecked]
  · rw [hrespond, answer, debug, he]

end Http

/-! ### All of them -/

namespace Spend

/-- Everybody who tries a spend gets the same verdict. -/
structure Agreement (spend : Spend) (digest : Digest) : Prop where
  /-- The verdict of a run is about the evaluation. -/
  run : (spend.run .standard digest).Tells (spend.evaluate .standard digest)
  /-- The verdict of a recorded run is the same. -/
  debug : (spend.debug .standard digest).verdict = spend.run .standard digest
  /-- There are no steps iff a check before the run fails or there is no code. -/
  trace_eq_nil_iff : (spend.debug .standard digest).trace = [] ↔
    (∃ e, spend.compile = .error e) ∨
      ∃ code, spend.compile = .ok code ∧ (maxCodeSize < code.length ∨ code = [])
  /-- Both commands answer with success, whatever they print. -/
  command : ∀ json,
    (Command.run spend digest json).answer = some (spend.run .standard digest).success ∧
      (Command.debug spend digest json).answer = some (spend.run .standard digest).success
  /-- A process for either command that loads the spend and the digest exits with zero on success
  and with one otherwise. -/
  process : ∀ files words scriptSig scriptPubKey given json,
    Command.loadSpend files scriptSig scriptPubKey given = .ok (spend, digest) →
      Command.Invocation.ofWords words = .task (.run scriptSig scriptPubKey given) json ∨
        Command.Invocation.ofWords words = .task (.debug scriptSig scriptPubKey given) json →
      (Command.exitOf files words).code =
        if (spend.run .standard digest).success then 0 else 1
  /-- The service delivers the verdict of a run. -/
  respond_run : ∀ request : Http.Request, request.Posts .run spend →
    (Http.respond digest request).Delivers spend (spend.run .standard digest)
      (spend.run .standard digest).toValue
  /-- It delivers the same verdict with the steps of a recorded run. -/
  respond_debug : ∀ request : Http.Request, request.Posts .debug spend →
    (Http.respond digest request).Delivers spend (spend.run .standard digest)
      (spend.debug .standard digest).toValue
  /-- These are the entries for the steps. -/
  trace_eq : (spend.debug .standard digest).toValue.entry? "trace" =
    some (.array ((spend.debug .standard digest).trace.map TraceStep.toValue))
  /-- What the service delivers is never an error about a length. -/
  error_ne : ∀ checked, spend.validate = .ok checked → ∀ e : SpendError, e.IsLength →
    spend.evaluate .standard digest ≠ .error e ∧
      (spend.run .standard digest).error ≠ some e.message ∧
      (spend.debug .standard digest).verdict.error ≠ some e.message

/-- **All entry points give one verdict.** -/
theorem agreement (spend : Spend) (digest : Digest) : spend.Agreement digest := by
  have hrun : (spend.run .standard digest).Tells (spend.evaluate .standard digest) :=
    Verdict.tells_ofAnswer _
  have hdebug : (spend.debug .standard digest).verdict = spend.run .standard digest :=
    verdict_debug
  refine ⟨hrun, hdebug, trace_debug_eq_nil_iff, fun json => ⟨rfl, ?_⟩, ?_,
    fun request => Http.delivers_run, fun request => Http.delivers_debug, rfl, ?_⟩
  · rw [← hdebug]
    rfl
  · rintro files words scriptSig scriptPubKey given json hload (hwords | hwords)
    · exact Command.exitOf_run hwords hload
    · rw [← hdebug]
      exact Command.exitOf_debug hwords hload
  · -- the text of an error tells whether it is about a length
    intro checked hchecked e he
    have hlength : NoLength (spend.evaluate .standard digest) :=
      not_isLength_of_evaluate hchecked
    have herror : (spend.run .standard digest).error ≠ some e.message := by
      intro htext
      obtain ⟨e', he', hmessage⟩ := (hrun.error_iff _).1 htext
      exact SpendError.message_ne he (hlength e' he') hmessage
    exact ⟨fun h => hlength e h he, herror, hdebug ▸ herror⟩

/-- Two equal items, and a word that gives up, for processes and for the service. -/
theorem agreement_equal_return :
    let sentence := "Script error: OP_RETURN was encountered"
    (Command.exitOf (fun _ => .error .missing)
        ["run", "--sig", "0x07", "--pubkey", "0x07 OP_EQUAL"]).code = 0 ∧
      (Http.respond .zero (.postJson "/api/run" "[\"0x07\", \"0x07 OP_EQUAL\"]")).body =
        some (.object [("success", .bool true)]) ∧
      (Command.exitOf (fun _ => .error .missing)
        ["debug", "--sig", "0x07", "--pubkey", "OP_RETURN"]).code = 1 ∧
      (Http.respond .zero (.postJson "/api/run" "[\"0x07\", \"OP_RETURN\"]")).body =
        some (.object [("success", .bool false), ("error", .string sentence)]) ∧
      ∃ value, value.States ⟨false, some sentence⟩ ∧
        (Http.respond .zero (.postJson "/api/debug" "[\"0x07\", \"OP_RETURN\"]")).body =
          some value := by
  intro sentence
  have hequal := agreement ⟨"0x07", "0x07 OP_EQUAL"⟩ .zero
  have hreturn := agreement ⟨"0x07", "OP_RETURN"⟩ .zero
  have hsuccess : Spend.run .standard .zero ⟨"0x07", "0x07 OP_EQUAL"⟩ = ⟨true, none⟩ := by
    decide +kernel
  have hfailure : Spend.run .standard .zero ⟨"0x07", "OP_RETURN"⟩ = ⟨false, some sentence⟩ := by
    decide +kernel
  have hreadEqual : Json.Record.read Http.Route.run.fields
      "[\"0x07\", \"0x07 OP_EQUAL\"]".toUTF8.data.toList =
        .ok [("scriptPubKey", "0x07 OP_EQUAL"), ("scriptSig", "0x07")] := by
    decide +kernel
  have hreadReturn : Json.Record.read Http.Route.run.fields
      "[\"0x07\", \"OP_RETURN\"]".toUTF8.data.toList =
        .ok [("scriptPubKey", "OP_RETURN"), ("scriptSig", "0x07")] := by
    decide +kernel
  have hvalidateEqual :
      Spend.validate ⟨"0x07", "0x07 OP_EQUAL"⟩ = .ok ⟨"0x07", "0x07 OP_EQUAL"⟩ := by
    decide +kernel
  have hvalidateReturn : Spend.validate ⟨"0x07", "OP_RETURN"⟩ = .ok ⟨"0x07", "OP_RETURN"⟩ := by
    decide +kernel
  have hroute : Http.Route.ofTarget? "/api/run" = some .run := by decide +kernel
  have hroute' : Http.Route.ofTarget? "/api/debug" = some .debug := by decide +kernel
  refine ⟨?_, ?_, ?_, ?_, ?_⟩
  · have hcode := hequal.process (fun _ => .error .missing)
      ["run", "--sig", "0x07", "--pubkey", "0x07 OP_EQUAL"] ⟨some "0x07", none⟩
      ⟨some "0x07 OP_EQUAL", none⟩ none false rfl (.inl rfl)
    rwa [hsuccess] at hcode
  · have hdelivers :=
      hequal.respond_run _ (Http.posts_postJson hroute (by decide +kernel) hreadEqual)
    rw [(hdelivers.of_ok _ hvalidateEqual).2.1, hsuccess]
    rfl
  · have hcode := hreturn.process (fun _ => .error .missing)
      ["debug", "--sig", "0x07", "--pubkey", "OP_RETURN"] ⟨some "0x07", none⟩
      ⟨some "OP_RETURN", none⟩ none false rfl (.inr rfl)
    rwa [hfailure] at hcode
  · have hdelivers :=
      hreturn.respond_run _ (Http.posts_postJson hroute (by decide +kernel) hreadReturn)
    rw [(hdelivers.of_ok _ hvalidateReturn).2.1, hfailure]
    rfl
  · have hdelivers :=
      hreturn.respond_debug _ (Http.posts_postJson hroute' (by decide +kernel) hreadReturn)
    obtain ⟨-, hbody, hstates⟩ := hdelivers.of_ok _ hvalidateReturn
    exact ⟨_, hfailure ▸ hstates, hbody⟩

end Spend

end SpendScript
