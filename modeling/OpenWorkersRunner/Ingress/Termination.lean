import OpenWorkersRunner.Ingress.Hosts
import OpenWorkersRunner.Lib.Debug

/-!
# The answer for a worker that sent none (`terminated_response`)

A worker that ends without a response gets one from the runner, and the header
`x-termination-reason` says why it ended: the reason in its Debug form, as a header value.  A reason
can carry a message of the worker, in any script, and a text that is no header value is a panic.
The Debug form escapes control characters and keeps printable characters from outside of ASCII,
whose bytes are bytes of header values.
-/

namespace OpenWorkersRunner.Ingress

open Option Text

inductive TerminationReason
  | cpuTimeLimit
  | wallClockTimeout
  | memoryLimit
  | maxIterationsReached
  | exception (message : String)
  | initializationError (message : String)
  | terminated
  | aborted
  | other (message : String)
deriving DecidableEq

namespace TerminationReason

def debug (keeps : Char → Bool) : TerminationReason → String
  | .cpuTimeLimit => "CpuTimeLimit"
  | .wallClockTimeout => "WallClockTimeout"
  | .memoryLimit => "MemoryLimit"
  | .maxIterationsReached => "MaxIterationsReached"
  | .exception message => "Exception(" ++ debugStr keeps message ++ ")"
  | .initializationError message => "InitializationError(" ++ debugStr keeps message ++ ")"
  | .terminated => "Terminated"
  | .aborted => "Aborted"
  | .other message => "Other(" ++ debugStr keeps message ++ ")"

end TerminationReason

inductive Outcome
  | success
  | failed (reason : String)
deriving DecidableEq

/-- `Outcome::terminated`. -/
def Outcome.terminated : TerminationReason → Outcome
  | .cpuTimeLimit => .failed "cpu_time_limit"
  | .wallClockTimeout => .failed "wall_clock_timeout"
  | .memoryLimit => .failed "memory_limit"
  | .maxIterationsReached => .failed "max_iterations"
  | .exception _ => .failed "exception"
  | .initializationError _ => .failed "initialization_error"
  | .terminated => .failed "terminated"
  | .aborted => .failed "aborted"
  | .other _ => .failed "other"

structure Response where
  status : Nat
  headers : Headers
  body : Text

def errorResponse (status : Nat) (message : Text) : Option Response :=
  if 100 ≤ status ∧ status < 1000 then
    some ⟨status, .ofLines [(ascii "content-type", ascii "text/plain")], message⟩
  else none

def xTerminationReason : Text := ascii "x-termination-reason"

/-- What the runner uses of `openworkers_core` and the standard library. -/
structure Core where
  httpStatus : TerminationReason → Nat
  display : TerminationReason → String
  keeps : Char → Bool

/-- How a worker ends without a response: it drops the sender of the response, and the result of
the task comes or is lost, or the deadline of the request passes. -/
inductive Ended
  | dropped (sent : Option (Except TerminationReason Unit))
  | deadline

def Ended.result : Ended → Except TerminationReason Unit
  | .dropped sent => sent.getD (.error (.other "Unknown error"))
  | .deadline => .error .wallClockTimeout

section Terminated

variable (C : Core)

/-- `terminated_response`. -/
def terminatedResponse : Except TerminationReason Unit → Option (Response × Outcome)
  | .ok () =>
    (errorResponse 500 (ascii
      "Worker completed but did not send a response (missing fetch event listener?)")).map
        fun resp => (resp, .failed "no_response")
  | .error reason =>
    (errorResponse (C.httpStatus reason) (utf8 (C.display reason))).bind fun resp =>
      (headerValue isHeaderByte (utf8 (reason.debug C.keeps))).map fun value =>
        ({ resp with headers := resp.headers.insert xTerminationReason value },
          .terminated reason)

def Answered (reason : TerminationReason) : Prop :=
  ∃ resp, terminatedResponse C (.error reason) = some (resp, .terminated reason) ∧
    resp.status = C.httpStatus reason ∧ resp.body = utf8 (C.display reason) ∧
    resp.headers.get xTerminationReason = some (utf8 (reason.debug C.keeps))

variable {C}

theorem isHeaderByte_of_mem_debug {keeps : Char → Bool} {reason : TerminationReason} {b : UInt8}
    (hb : b ∈ utf8 (reason.debug keeps)) : isHeaderByte b = true := by
  have hname (name : String) (h : (utf8 name).all isHeaderByte = true) (hb : b ∈ utf8 name) :
      isHeaderByte b = true := List.all_eq_true.1 h b hb
  -- a reason with a message puts it in parentheses
  have htext (name : String) {msg : String} (h : (utf8 name).all isHeaderByte = true)
      (hb : b ∈ utf8 (name ++ debugStr keeps msg ++ ")")) : isHeaderByte b = true := by
    rw [utf8_append, utf8_append, List.mem_append, List.mem_append] at hb
    obtain (hb | hb) | hb := hb
    · exact hname name h hb
    · obtain ⟨hle, hne⟩ := mem_utf8_debugStr hb
      simp [isHeaderByte, hle, hne]
    · exact hname ")" (by decide) hb
  cases reason with
  | cpuTimeLimit => exact hname "CpuTimeLimit" (by decide) hb
  | wallClockTimeout => exact hname "WallClockTimeout" (by decide) hb
  | memoryLimit => exact hname "MemoryLimit" (by decide) hb
  | maxIterationsReached => exact hname "MaxIterationsReached" (by decide) hb
  | exception msg => exact htext "Exception(" (by decide) hb
  | initializationError msg => exact htext "InitializationError(" (by decide) hb
  | terminated => exact hname "Terminated" (by decide) hb
  | aborted => exact hname "Aborted" (by decide) hb
  | other msg => exact htext "Other(" (by decide) hb

theorem answered (hst : ∀ reason, 100 ≤ C.httpStatus reason ∧ C.httpStatus reason < 1000)
    (reason : TerminationReason) : Answered C reason := by
  have hv : headerValue isHeaderByte (utf8 (reason.debug C.keeps)) =
      some (utf8 (reason.debug C.keeps)) :=
    if_pos (List.all_eq_true.2 fun _ hb => isHeaderByte_of_mem_debug hb)
  have her (message : Text) : errorResponse (C.httpStatus reason) message =
      some ⟨C.httpStatus reason, .ofLines [(ascii "content-type", ascii "text/plain")],
        message⟩ := if_pos (hst reason)
  refine ⟨⟨C.httpStatus reason,
    (Headers.ofLines [(ascii "content-type", ascii "text/plain")]).insert xTerminationReason
      (utf8 (reason.debug C.keeps)), utf8 (C.display reason)⟩, ?_, rfl, rfl, ?_⟩
  · rw [terminatedResponse, her, bind_some, hv, map_some]
  · simp [Headers.get]

/-- **Every termination gets its answer**: whatever the reason and its message, there is a response
with the status and the text of the reason and its Debug form in the header.  So there is one
however a worker ends without a response. -/
theorem terminated_response_answers
    (hstatus : ∀ reason, 100 ≤ C.httpStatus reason ∧ C.httpStatus reason < 1000) :
    (∀ reason, Answered C reason) ∧
      ∀ ended : Ended, (terminatedResponse C ended.result).isSome = true := by
  refine ⟨answered hstatus, fun ended => ?_⟩
  cases ended.result with
  | ok => rfl
  | error reason =>
    obtain ⟨resp, hresponse, -⟩ := answered hstatus reason
    rw [hresponse]
    rfl

end Terminated

def tinyCore : Core where
  httpStatus _ := 500
  display _ := "Worker failed"
  keeps c := c == 'é'

theorem terminated_response_answers_kept_letter :
    "é\n".toList.map tinyCore.keeps = [true, false] ∧ Answered tinyCore (.exception "é\n") := by
  have hstatus (reason : TerminationReason) :
      100 ≤ tinyCore.httpStatus reason ∧ tinyCore.httpStatus reason < 1000 := by
    show 100 ≤ 500 ∧ 500 < 1000
    decide
  exact ⟨by decide, (terminated_response_answers hstatus).1 _⟩

end OpenWorkersRunner.Ingress
