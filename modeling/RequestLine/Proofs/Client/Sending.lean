import RequestLine.Client
import RequestLine.Proofs.Service.Status

/-!
The service with a client behind it.  An error is replied with the status of a success only where the
other side gave that status and the text of its answer was cut off.
-/

namespace RequestLine

/-- The message asks for a request whose answer begins with this status, which is a success, and is then
broken off. -/
def Inbound.BreaksWith (inbound : Inbound) (agent : Client.Message → Client.Answer) (status : Nat) :
    Prop :=
  ∃ request message, inbound.Asks request ∧
    agent (Client.messageOf request.toCall) = .broken status message ∧ 200 ≤ status ∧ status ≤ 299

namespace Client

theorem failsWith_outcomeOf {answer : Answer} {status : Nat} :
    (outcomeOf answer).FailsWith status ↔
      (∃ message, answer = .broken status message) ∧ 200 ≤ status ∧ status ≤ 299 := by
  cases answer with
  | whole found text => simp [outcomeOf]
  | broken found message => simp [outcomeOf, and_comm]
  | none message => simp [outcomeOf]

theorem failsWith_send {inbound : Inbound} {agent : Message → Answer} {status : Nat} :
    inbound.FailsWith (send agent) status ↔ inbound.BreaksWith agent status := by
  simp only [Inbound.FailsWith, Inbound.BreaksWith, send, failsWith_outcomeOf]
  apply exists_congr
  intro request
  apply Iff.intro
  · intro fails
    obtain ⟨asks, ⟨message, broken⟩, success⟩ := fails
    exact ⟨message, asks, broken, success⟩
  · intro breaks
    obtain ⟨message, asks, broken, success⟩ := breaks
    exact ⟨asks, ⟨message, broken⟩, success⟩

end Client

theorem error_succeeds_iff_breaksWith (inbound : Inbound) (clock : Nat → Nat)
    (agent : Client.Message → Client.Answer) (record : Record) :
    let reply :=
      ((Service.reply (Host.recording clock (Client.send agent)) inbound).run record).1
    reply.IsError → (reply.Succeeds ↔ inbound.BreaksWith agent reply.status) := by
  intro reply error
  have reports : Service.Reports (inbound.FailsWith (Client.send agent)) reply :=
    Service.reports_reply inbound clock (Client.send agent) record
  rw [← Client.failsWith_send]
  cases reports with
  | exchange body _ _ => exact absurd body error.not_isExchange
  | failure _ noSuccess none => exact iff_of_false noSuccess (none _)
  | passedOn _ success only => exact iff_of_true success ((only _).mpr rfl)

end RequestLine
