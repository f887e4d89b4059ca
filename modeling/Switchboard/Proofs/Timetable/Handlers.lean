import Switchboard.Agent.Capable
import Switchboard.Proofs.Timetable.Assignments

/-!
# Handlers that take their time

* `Routine.Takes`, `Routine.Begins` : work that takes a length of time and ends in a known way, and
  such work behind a breaker whose answer is known;
* `Agent.Performs` : the handler of an agent for a capability does such work;
* `Agent.performs_offering`, `Agent.performs_refused` : so does an agent that offers a capability with
  such work, whether it has breakers or not, and one whose breaker refuses the call;
* `Program.Starts`, `Program.Serves`, `Program.Closing` : what there is to do of a request, what is left
  before its reply is sent, and afterwards;
* `Program.starts_serve`, `Program.closing_serve` : an agent serves a request in this way, and notes
  replies.
-/

namespace Switchboard

/-- An operation that is answered at once, and of which nobody else notices anything. -/
def Operation.Quiet : Operation → Prop
  | .clock | .attached _ | .providers _ | .directory | .agentNames | .turn .. | .stamp | .track ..
  | .untrack .. => True
  | .note _ m => m.kind.isReply = false
  | _ => False

theorem Operation.Quiet.exists_answer {o : Operation} (h : o.Quiet) : Nonempty o.Answer := by
  cases o with
  | clock | turn => exact ⟨(0 : Nat)⟩
  | attached => exact ⟨true⟩
  | providers | directory | agentNames => exact ⟨[]⟩
  | stamp => exact ⟨(default : Stamp)⟩
  | note | track | untrack => exact ⟨()⟩
  | _ => exact h.elim

namespace Routine

/-- Work for a capability that takes so many milliseconds and then ends in this way. It may tell the
breaker of the capability how a call ended. -/
inductive Takes (agent : Nat) (capability : String) :
    Verdict → Nat → Routine (Except Fault Json) → Prop
  | done (result : Except Fault Json) : Takes agent capability (.ok result) 0 (.done result)
  | crash (text : String) : Takes agent capability (.error text) 0 (.crash text)
  | pause {verdict : Verdict} {d : Nat} (ms : Nat)
      {next : (Operation.pause ms).Answer → Routine (Except Fault Json)}
      (h : Takes agent capability verdict d (next ())) :
      Takes agent capability verdict (ms + d) (.ask (.pause ms) next)
  | quiet {verdict : Verdict} {d : Nat} {o : Operation}
      {next : o.Answer → Routine (Except Fault Json)} (ho : o.Quiet)
      (h : ∀ answer, Takes agent capability verdict d (next answer)) :
      Takes agent capability verdict d (.ask o next)
  | settle {verdict : Verdict} {d : Nat} {permit : Permit} {how : Settlement}
      {next : (Operation.settle agent capability permit how).Answer → Routine (Except Fault Json)}
      (h : Takes agent capability verdict d (next ())) :
      Takes agent capability verdict d (.ask (.settle agent capability permit how) next)

/-- Work that takes so long and ends in this way. It may ask the breaker of the capability first, and
then does so if that gives this answer. -/
inductive Begins (agent : Nat) (capability : String) (admission : Except Fault Permit)
    (verdict : Verdict) (delay : Nat) : Routine (Except Fault Json) → Prop
  | work {r : Routine (Except Fault Json)} (h : r.Takes agent capability verdict delay) :
      Begins agent capability admission verdict delay r
  | enter {next : (Operation.enter agent capability).Answer → Routine (Except Fault Json)}
      (h : (next admission).Takes agent capability verdict delay) :
      Begins agent capability admission verdict delay (.ask (.enter agent capability) next)

variable {agent : Nat} {capability : String} {verdict : Verdict} {delay : Nat}
  {work : Routine (Except Fault Json)}

/-- What is done when work has ended takes no more time. -/
theorem Takes.attempt (h : work.Takes agent capability verdict delay)
    {tail : Except String (Except Fault Json) → Routine (Except Fault Json)}
    (htail : (tail verdict).Takes agent capability verdict 0) :
    Takes agent capability verdict delay (work.attempt.bind tail) := by
  induction h with
  | done result => exact htail
  | crash text => exact htail
  | pause ms h ih => exact .pause ms (ih htail)
  | quiet ho h ih => exact .quiet ho fun answer => ih answer htail
  | settle h ih => exact .settle (ih htail)

/-- Work behind a breaker that lets the call through. -/
theorem Takes.guarded (h : work.Takes agent capability verdict delay) (permit : Permit) :
    Begins agent capability (.ok permit) verdict delay (guarded agent capability work) := by
  refine .enter (h.attempt ?_)
  rcases verdict with text | result
  · exact .settle (.crash text)
  · exact .settle (.done result)

/-- Work behind a breaker that refuses the call is not done. -/
theorem begins_refused (work : Routine (Except Fault Json)) (f : Fault) :
    Begins agent capability (.error f) (.ok (.error f)) 0 (guarded agent capability work) :=
  .enter (.done (.error f))

end Routine

namespace Agent

/-- What a handler does with the result of its work: the value is sent, a fault is left to whoever
serves the request. -/
def finish (agent : Nat) (name : String) (m : Message) :
    Except Fault Json → Routine (Except Fault Unit)
  | .error f => .done (.error f)
  | .ok v => respond agent name m v

/-- If the breaker of a capability gives this answer, the handler of an agent takes so long and ends in
this way. -/
def Performs (a : Agent) (agent : Nat) (capability : String) (admission : Except Fault Permit)
    (delay : Nat) (verdict : Verdict) : Prop :=
  ∀ m : Message, m.capability? = some capability → ∃ work : Routine (Except Fault Json),
    work.Begins agent capability admission verdict delay ∧
      a.onRequest agent m = Routine.program (work.bind (finish agent a.name m))

section Offering

variable {name description : String} {capabilities : List Capability}
  {breakers : Option BreakerPolicy} {c : Capability} {agent delay : Nat} {verdict : Verdict}
  {capability : String} {admission : Except Fault Permit}

/-- An agent that offers capabilities does what its work for the capability does. -/
theorem performs_of_invoke
    (h : ∀ data, (invokeWith name capabilities breakers.isSome agent capability data).Begins agent
      capability admission verdict delay) :
    (offering name capabilities description breakers).Performs agent capability admission delay
      verdict := by
  intro m hm
  refine ⟨_, h m.data, ?_⟩
  unfold offering
  dsimp only
  rw [hm]
  exact congrArg (fun f => Routine.program (Flow.bind _ f)) (funext fun
    | .error f => rfl
    | .ok v => rfl)

theorem invokeWith_eq (hc : find? capabilities capability = some c) (hasBreakers : Bool)
    (data : Json) : invokeWith name capabilities hasBreakers agent capability data =
      if hasBreakers then guarded agent capability (c.run agent data) else c.run agent data := by
  unfold invokeWith
  rw [hc]

/-- What an agent that offers a capability does takes as long as the work of the capability. If there
are breakers this is so when the call is let through. -/
theorem performs_offering (hc : find? capabilities capability = some c)
    (hrun : ∀ data, (c.run agent data).Takes agent capability verdict delay)
    (hadmission : breakers.isSome = true → ∃ permit, admission = .ok permit) :
    (offering name capabilities description breakers).Performs agent capability admission delay
      verdict := by
  refine performs_of_invoke fun data => ?_
  rw [invokeWith_eq hc]
  cases hbreakers : breakers.isSome with
  | false => exact .work (hrun data)
  | true =>
    obtain ⟨permit, rfl⟩ := hadmission hbreakers
    exact (hrun data).guarded permit

/-- A call that the breaker refuses fails at once. -/
theorem performs_refused (hc : find? capabilities capability = some c) (policy : BreakerPolicy)
    (f : Fault) :
    (offering name capabilities description (some policy)).Performs agent capability (.error f) 0
      (.ok (.error f)) := by
  refine performs_of_invoke fun data => ?_
  rw [invokeWith_eq hc]
  exact Routine.begins_refused _ f

end Offering

end Agent

/-! ## Serving -/

/-- Nothing is left to do of which anybody else notices anything. -/
inductive Program.Closing : Program Unit → Prop
  | done (u : Unit) : Closing (.done u)
  | release {next : (Effect.plain .release).Answer → Program Unit} (h : ∀ u, Closing (next u)) :
      Closing (.ask (.plain .release) next)
  | note {agent : Nat} {m : Message} {next : (Effect.plain (.note agent m)).Answer → Program Unit}
      (h : ∀ u, Closing (next u)) : Closing (.ask (.plain (.note agent m)) next)
  | noteReply {agent : Nat} {m : Message}
      {next : (Effect.plain (.noteReply agent m)).Answer → Program Unit}
      (h : ∀ u, Closing (next u)) : Closing (.ask (.plain (.noteReply agent m)) next)

/-- After so many milliseconds the reply to the request of a step is sent, and that is all. The breaker
of the step may be told how a call ended. -/
inductive Program.Serves (x : Assignment) : Nat → Program Unit → Prop
  | pause {d : Nat} (ms : Nat) {next : (Effect.plain (.pause ms)).Answer → Program Unit}
      (h : Serves x d (next ())) : Serves x (ms + d) (.ask (.plain (.pause ms)) next)
  | quiet {d : Nat} {o : Operation} {next : (Effect.plain o).Answer → Program Unit} (ho : o.Quiet)
      (h : ∀ answer, Serves x d (next answer)) : Serves x d (.ask (.plain o) next)
  | attached {d agent : Nat} (ha : agent = x.post.agent)
      {next : (Effect.plain (.attached agent)).Answer → Program Unit}
      (h : Serves x d (next true)) : Serves x d (.ask (.plain (.attached agent)) next)
  | settle {d agent : Nat} {capability : String} {permit : Permit} {how : Settlement}
      (hx : x.Behind agent capability)
      {next : (Effect.plain (.settle agent capability permit how)).Answer → Program Unit}
      (h : Serves x d (next ())) :
      Serves x d (.ask (.plain (.settle agent capability permit how)) next)
  | hold {d : Nat} {next : (Effect.plain .hold).Answer → Program Unit}
      (h : Serves x d (next true)) : Serves x d (.ask (.plain .hold) next)
  | send {m : Message} {next : (Effect.plain (.send m none)).Answer → Program Unit}
      (hm : x.Replies m) (h : ∀ sent, Closing (next sent)) :
      Serves x 0 (.ask (.plain (.send m none)) next)

/-- The request of a step is about to be served: the breaker of the step may be asked first, and gives
the answer that is expected. -/
inductive Program.Starts (x : Assignment) : Program Unit → Prop
  | serves {code : Program Unit} (h : code.Serves x x.post.delay) : Starts x code
  | quiet {o : Operation} {next : (Effect.plain o).Answer → Program Unit} (ho : o.Quiet)
      (h : ∀ answer, Starts x (next answer)) : Starts x (.ask (.plain o) next)
  | enter {agent : Nat} {capability : String} (hx : x.Behind agent capability)
      {next : (Effect.plain (.enter agent capability)).Answer → Program Unit}
      (h : (next x.post.admission).Serves x x.post.delay) :
      Starts x (.ask (.plain (.enter agent capability)) next)

namespace Program

variable {x : Assignment} {m : Message}

/-- A request that failed is answered with an error. -/
theorem serves_reportFailure (hm : x.Requests m) {f : Fault} (hf : x.post.verdict.fault? = some f)
    (hcontent : x.post.verdict.content = f.report.content) :
    Serves x 0 (Agent.reportFailure x.post.name m f).program := by
  obtain ⟨stamp, rfl⟩ := hm
  refine .hold (.quiet (o := .stamp) trivial fun (stamp : Stamp) => ?_)
  refine .send ⟨rfl, rfl, rfl, ?_⟩ fun _ => .release fun _ => .done _
  rw [Assignment.reply, hcontent, hf]
  rfl

/-- The value of a request is sent. -/
theorem serves_respond (hm : x.Requests m) {v : Json} (hv : x.post.verdict = .ok (.ok v))
    {tail : Except String (Except Fault Unit) → Program Unit}
    (htail : ∀ u, (tail (.ok (.ok u))).Closing) :
    Serves x 0
      ((Flow.attempt (Agent.respond x.post.agent x.post.name m v).program).bind tail) := by
  obtain ⟨stamp, rfl⟩ := hm
  refine .attached rfl (.hold (.quiet (o := .stamp) trivial fun (stamp : Stamp) => ?_))
  refine .send ⟨rfl, rfl, rfl, ?_⟩ fun _ => .release fun _ => htail _
  rw [Assignment.reply, hv]
  rfl

/-- How a message is done with whose handling has ended. -/
def afterwards (name : String) (m : Message) (r : Except String (Except Fault Unit)) :
    Program Unit :=
  match Agent.failure? r, m.kind with
  | some f, .capabilityRequest => (Agent.reportFailure name m f).program
  | _, _ => .done ()

theorem serves_of_takes (hm : x.Requests m) {d : Nat} {work : Routine (Except Fault Json)}
    (h : work.Takes x.post.agent x.call.capability x.post.verdict d) :
    Serves x d ((Flow.attempt
      (Routine.program (work.bind (Agent.finish x.post.agent x.post.name m)))).bind
        (afterwards x.post.name m)) := by
  have hkind : m.kind = .capabilityRequest := by
    obtain ⟨stamp, rfl⟩ := hm
    rfl
  generalize hverdict : x.post.verdict = verdict at h
  induction h with
  | done result =>
    rcases result with f | v
    · have hreport := serves_reportFailure hm (f := f) (by rw [hverdict]; rfl)
        (by rw [hverdict]; rfl)
      change Serves x 0 (afterwards x.post.name m (.ok (.error f)))
      rw [afterwards, hkind]
      exact hreport
    · have hafter : ∀ u, (afterwards x.post.name m (.ok (.ok u))).Closing := fun u => .done ()
      exact serves_respond hm hverdict hafter
  | crash text =>
    have hreport := serves_reportFailure hm (f := Agent.broken text) (by rw [hverdict]; rfl)
      (by rw [hverdict]; rfl)
    change Serves x 0 (afterwards x.post.name m (.error text))
    rw [afterwards, hkind]
    exact hreport
  | pause ms h ih => exact .pause ms (ih hverdict)
  | quiet ho h ih => exact .quiet ho fun answer => ih answer hverdict
  | settle h ih => exact .settle ⟨rfl, rfl⟩ (ih hverdict)

theorem starts_of_begins (hm : x.Requests m) {work : Routine (Except Fault Json)}
    (h : work.Begins x.post.agent x.call.capability x.post.admission x.post.verdict x.post.delay) :
    Starts x ((Flow.attempt
      (Routine.program (work.bind (Agent.finish x.post.agent x.post.name m)))).bind
        (afterwards x.post.name m)) := by
  cases h with
  | work h => exact .serves (serves_of_takes hm h)
  | enter h => exact .enter ⟨rfl, rfl⟩ (serves_of_takes hm h)

theorem serve_eq (a : Agent) (agent : Nat) (m : Message) :
    a.serve agent m = (Flow.attempt (a.handle agent m)).bind (afterwards a.name m) := rfl

/-- An agent serves the request of a step. -/
theorem starts_serve (hm : x.Requests m) {a : Agent} (hname : a.name = x.post.name)
    (hperforms : a.Performs x.post.agent x.call.capability x.post.admission x.post.delay
      x.post.verdict) : Starts x (a.serve x.post.agent m) := by
  have hcapability : m.kind = .capabilityRequest ∧ m.capability? = some x.call.capability := by
    obtain ⟨stamp, rfl⟩ := hm
    exact ⟨rfl, rfl⟩
  obtain ⟨work, hbegins, hwork⟩ := hperforms m hcapability.2
  have hstarts := starts_of_begins hm hbegins
  rw [← hname, ← hwork] at hstarts
  rw [serve_eq]
  unfold Agent.handle
  rw [hcapability.1]
  cases a.keepsLog
  · exact hstarts
  · exact .quiet (o := .note x.post.agent m) (by rw [Operation.Quiet, hcapability.1]; rfl)
      fun _ => hstarts

/-- An agent that is given a reply notes it. -/
theorem closing_serve (hm : m.kind.isReply = true) (a : Agent) (agent : Nat) :
    (a.serve agent m).Closing := by
  have hdone : ∀ r : Except String (Except Fault Unit), (afterwards a.name m r).Closing := by
    intro r
    unfold afterwards
    split
    · rename_i hkind
      rw [hkind] at hm
      cases hm
    · exact .done ()
  have hnote : Closing ((Flow.attempt
      ((Routine.program (perform (.noteReply agent m))).bind fun _ => .done (.ok ()))).bind
        (afterwards a.name m)) :=
    .noteReply fun _ => hdone _
  rw [serve_eq]
  unfold Agent.handle
  cases hkind : m.kind with
  | capabilityResponse =>
    cases a.keepsLog
    · exact hnote
    · exact .note fun _ => hnote
  | error =>
    cases a.keepsLog
    · exact hnote
    · exact .note fun _ => hnote
  | _ =>
    rw [hkind] at hm
    cases hm

end Program

end Switchboard
