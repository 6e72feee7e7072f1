import OmniDoer.Model.Requests

/-! # Handing the browser to the user

The model of `omni_takeover/relay.py` and of the takeover part of
`omni_agent/challenge_guard.py`: the agent creates a takeover request, waits until the
user releases it, and resumes. -/

namespace OmniDoer.ChallengeGuard

open Py Effects Requests

def requestUserControl (requestId origin topLevelUrl reason browserContextId riskLevel : String)
    (allowedDeviceId : Option String) : StoreProg ControlRequest := do
  let request ← RequestStore.create requestId
    { requestType := "human_takeover"
      origin := origin
      topLevelUrl := topLevelUrl
      actionSummary := reason
      riskLevel := riskLevel
      takeoverReason := some reason
      browserContextId := some browserContextId
      allowedDeviceId := allowedDeviceId }
  StoreProg.auditAppend
    ⟨"takeover_started",
      [("request_id", .str request.requestId), ("origin", .str origin),
        ("takeover_reason", .str reason), ("risk_level", .str riskLevel),
        ("status", .str request.status.name)]⟩
  return request

/-- `start_stream`; `takeoverFrame` is what the browser answers. -/
def startStream (requestId : String) (takeoverFrame : Except Error Dict) : StoreProg Dict := do
  let request ← RequestStore.get requestId
  if !request.requestType.isTakeover then
    StoreProg.valueError "not a takeover or registration handoff request"
  else if request.status ≠ .userControl then StoreProg.valueError "user is not in control"
  else Prog.ofExcept takeoverFrame

/-- The events and messages of a wait. -/
structure WaitReport where
  timeoutEvent : String
  timeoutMessage : String
  abortedEvent : String
  abortedMessage : String

/-- The `except TimeoutError` clause of a wait. -/
def WaitReport.onError (report : WaitReport) (requestId : String) (e : Error) :
    StoreProg (Option ControlRequest) :=
  if e.kind = .timeoutError then do
    StoreProg.auditAppend
      ⟨report.timeoutEvent, [("request_id", .str requestId), ("status", .str "timeout")]⟩
    .raise ⟨.timeoutError, report.timeoutMessage⟩
  else .raise e

/-- What a wait makes of the request it is given; there is none while the caller is still
waiting. -/
def WaitReport.onResult (report : WaitReport) (requestId : String) :
    Option ControlRequest → StoreProg (Option Unit)
  | none => return none
  | some request =>
    if request.status ∈ abortedRequestStatuses then do
      StoreProg.auditAppend
        ⟨report.abortedEvent,
          [("request_id", .str requestId), ("status", .str request.status.name)]⟩
      .raise ⟨.runtimeError, report.abortedMessage ++ request.status.name⟩
    else return some ()

def WaitReport.around (report : WaitReport) (requestId : String)
    (wait : StoreProg (Option ControlRequest)) : StoreProg (Option Unit) :=
  wait.handle (report.onError requestId) >>= report.onResult requestId

def releaseReport : WaitReport where
  timeoutEvent := "agent_takeover_wait_timeout"
  timeoutMessage := "timed out waiting for Control Client release"
  abortedEvent := "agent_takeover_wait_aborted"
  abortedMessage := "Control Client takeover request ended: "

/-- `_wait_for_release`, for at most `fuel` polls. -/
def waitForRelease (requestId : String) (timeoutSeconds : ℚ) (fuel : ℕ) : StoreProg (Option Unit) :=
  releaseReport.around requestId
    (waitForRequestCompletion requestId timeoutSeconds false [.released] fuel)

structure ChallengeResolution where
  status : String
  mode : String
  challengeType : Option String := none
  requestId : Option String := none
  agentResumed : Bool := false
  deriving DecidableEq, Repr

/-- The arguments of `_route_takeover`, with what the browser answers and the number of
polls after which the agent is still waiting. -/
structure TakeoverArgs where
  requestId : String
  origin : String
  topLevelUrl : String
  challengeType : String
  browserContextId : String
  reason : String
  timeoutSeconds : ℚ
  takeoverFrame : Except Error Dict
  fuel : ℕ

/-- `_route_takeover` outside of its test mode. -/
def routeTakeover (args : TakeoverArgs) : StoreProg (Option ChallengeResolution) := do
  let request ← requestUserControl args.requestId args.origin args.topLevelUrl args.reason
    args.browserContextId "high" none
  let _ ← startStream request.requestId args.takeoverFrame
  match ← waitForRelease request.requestId args.timeoutSeconds args.fuel with
  | none => return none
  | some () => do
      StoreProg.auditAppend
        ⟨"agent_resumed_after_takeover",
          [("request_id", .str request.requestId), ("origin", .str args.origin),
            ("challenge_type", .str args.challengeType), ("status", .str "ok")]⟩
      return some
        { status := "user_completed_takeover"
          mode := "human_takeover"
          challengeType := some args.challengeType
          requestId := some request.requestId
          agentResumed := true }

end OmniDoer.ChallengeGuard
