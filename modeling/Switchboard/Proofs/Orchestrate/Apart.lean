import Switchboard.Proofs.Bus.Requests
import Switchboard.Proofs.Orchestrate.Keys
import Switchboard.Proofs.World.Deeds
import Switchboard.Proofs.World.Exchanges

/-!
# Orchestrations of one network

Several orchestrated requests may be under way on one network. All their replies pass through one
table, where only the id of a step tells whose a reply is. That id is the id of the whole request, a
colon, and the key of the step.

* `Tangled`, `StepCall.subId_eq_iff` : when steps of different requests have the same id;
* `Orchestration` : what is asked of an orchestrator; `Orchestration.Owns` : the ids of its steps;
* `Orchestration.owns_of_started`, `Orchestration.started_of_sent` : it starts collections for these ids
  only, and sends messages only under ids for which it has started one;
* `Agent.only_respond` and its like : what agents answer are replies to the id of the request;
* `Orchestration.Apart` : nothing of one orchestration gets into another;
  `Orchestration.apart_iff` : so it is, however they and all others take turns, unless steps are
  tangled.
-/

namespace Switchboard

/-! ## The ids of steps -/

/-- The id of one request goes on after a colon where the other ends, and the key of a step of the
other begins with what is there. -/
def Tangled (requestId key requestId' key' : String) : Prop :=
  ∃ more, requestId' = requestId ++ ":" ++ more ∧ key = more ++ ":" ++ key'

theorem toList_subId (requestId key : String) :
    (StepCall.subId requestId key).toList = requestId.toList ++ ':' :: key.toList := by
  rw [StepCall.subId, String.toList_append, String.toList_append, List.append_assoc]
  rfl

theorem Tangled.subId_eq {r k r' k' : String} (h : Tangled r k r' k') :
    StepCall.subId r k = StepCall.subId r' k' := by
  obtain ⟨more, rfl, rfl⟩ := h
  simp only [StepCall.subId, String.append_assoc]

theorem tangled_of_append {r k r' k' : String} {cs : List Char} (hne : r ≠ r')
    (hrequest : r'.toList = r.toList ++ cs) (hkeys : ':' :: k.toList = cs ++ ':' :: k'.toList) :
    Tangled r k r' k' := by
  cases cs with
  | nil =>
    rw [List.append_nil] at hrequest
    exact absurd (String.toList_injective hrequest).symm hne
  | cons c cs =>
    obtain ⟨rfl, hkey⟩ := List.cons.inj hkeys
    refine ⟨.ofList cs, String.toList_injective ?_, String.toList_injective ?_⟩
    · rw [hrequest, String.toList_append, String.toList_append, @String.toList_ofList cs,
        List.append_assoc]
      rfl
    · rw [hkey, String.toList_append, String.toList_append, @String.toList_ofList cs,
        List.append_assoc]
      rfl

/-- Steps of different requests have the same id just when they are tangled. -/
theorem StepCall.subId_eq_iff {r k r' k' : String} (hne : r ≠ r') :
    subId r k = subId r' k' ↔ Tangled r k r' k' ∨ Tangled r' k' r k := by
  constructor
  · intro h
    have hlists : r.toList ++ ':' :: k.toList = r'.toList ++ ':' :: k'.toList := by
      rw [← toList_subId, ← toList_subId, h]
    rcases List.append_eq_append_iff.mp hlists with ⟨cs, hrequest, hkeys⟩ | ⟨cs, hrequest, hkeys⟩
    · exact .inl (tangled_of_append hne hrequest hkeys)
    · exact .inr (tangled_of_append hne.symm hrequest hkeys)
  · rintro (h | h)
    · exact h.subId_eq
    · exact h.subId_eq.symm

/-- A key without a colon is tangled with no other. -/
theorem not_tangled {r k r' k' : String} (h : ':' ∉ k.toList) : ¬ Tangled r k r' k' := by
  rintro ⟨more, -, rfl⟩
  refine h ?_
  rw [String.toList_append, String.toList_append]
  exact List.mem_append_left _ (List.mem_append_right _ List.mem_cons_self)

/-! ## What orchestrations ask for -/

/-- What is asked of an orchestrator: a graph of capabilities, or jobs one after another. -/
inductive Orchestration where
  | graph (r : GraphRequest)
  | sequence (requestId : String) (jobs : List Job)

namespace Orchestration

variable (t : Orchestration)

def requestId : Orchestration → String
  | graph r => r.requestId
  | sequence requestId _ => requestId

/-- The keys that its steps may have. -/
def keys : Orchestration → List String
  | graph r => r.graph.names
  | sequence _ jobs => Job.keys jobs

def program (o : Orchestrator) : Orchestration → Program RunReport
  | graph r => o.execute r
  | sequence requestId jobs => o.sequence requestId jobs

/-- The ids that its steps may have. -/
def Owns (id : String) : Prop := ∃ key ∈ t.keys, id = StepCall.subId t.requestId key

end Orchestration

/-- Operations by which an orchestrator itself looks around. -/
def Operation.LooksAround : Operation → Prop
  | .clock | .directory | .agentNames => True
  | _ => False

namespace Orchestrator

variable {o : Orchestrator} {requestId : String} {s : Schedule} {Q : StepCall → Prop}

theorem made_runWaves
    (h : ∀ x ∈ s.steps, ∀ call : StepCall, call.requestId = StepCall.subId requestId x.1 → Q call)
    (deadline n : Nat) (waves : List (List Nat)) (p : Progress) :
    (o.runWaves requestId s deadline n waves p).MadeOf Operation.LooksAround Q := by
  induction waves generalizing n p with
  | nil => exact .done p
  | cons wave rest ih =>
    unfold runWaves
    refine .plain (o := .clock) trivial fun (now : Nat) => ?_
    by_cases hlate : deadline ≤ now
    · rw [if_pos hlate]
      exact ih _ _
    · rw [if_neg hlate]
      refine .wave (fun call hcall => ?_) fun outcomes => ih _ _
      obtain ⟨i, -, hi⟩ := List.mem_filterMap.mp hcall
      obtain ⟨x, hx, rfl⟩ := Option.map_eq_some_iff.mp hi
      exact h x (List.mem_of_getElem? hx) _ rfl

theorem made_runSchedule
    (h : ∀ x ∈ s.steps, ∀ call : StepCall, call.requestId = StepCall.subId requestId x.1 → Q call) :
    (o.runSchedule requestId s).MadeOf Operation.LooksAround Q :=
  .plain (o := .clock) trivial fun _ => made_runWaves h _ _ _ _

end Orchestrator

/-- Besides looking around an orchestration runs steps of its own. -/
theorem Orchestration.made_program (o : Orchestrator) (t : Orchestration) :
    (t.program o).MadeOf Operation.LooksAround fun call => t.Owns call.requestId := by
  cases t with
  | graph r =>
    unfold program Orchestrator.execute
    refine .plain (o := .directory) trivial fun (entries : List (String × List String)) => ?_
    refine (Orchestrator.made_runSchedule fun x hx call hcall => ?_).bind fun p => .done _
    obtain ⟨job, hjob, rfl⟩ := List.mem_map.mp hx
    obtain ⟨node, hnode, rfl⟩ := List.mem_map.mp hjob
    obtain ⟨kept, hkept, rfl⟩ := List.mem_map.mp hnode
    exact ⟨_, List.mem_map_of_mem (List.mem_of_mem_filter hkept), hcall⟩
  | sequence requestId jobs =>
    unfold program Orchestrator.sequence
    refine .plain (o := .directory) trivial fun (entries : List (String × List String)) => ?_
    refine .plain (o := .agentNames) trivial fun (agents : List String) => ?_
    dsimp only
    rw [List.partition_eq_filter_filter]
    refine (Orchestrator.made_runSchedule fun x hx call hcall => ?_).bind fun p => .done _
    have hkey : x.1 ∈ Job.keys (jobs.filter (Orchestrator.isReachable entries agents)) :=
      (List.of_mem_zip hx).1
    exact ⟨x.1, Job.keys_subset List.filter_sublist hkey, hcall⟩

/-! ## Collections and messages -/

/-- The ids for which collections were started. -/
def startedIn (ys : List Answered) : List String :=
  ys.filterMap fun x => match x.operation with
    | .collect requestId .. => some requestId
    | _ => none

theorem mem_startedIn {ys : List Answered} {requestId : String} :
    requestId ∈ startedIn ys ↔ ∃ x ∈ ys, ∃ capability expected strategy timeout,
      x.operation = .collect requestId capability expected strategy timeout := by
  unfold startedIn
  rw [List.mem_filterMap]
  refine exists_congr fun x => and_congr_right fun hx => ?_
  cases hoperation : x.operation <;> simp

theorem mem_sentIn {ys : List Answered} {m : Message} :
    m ∈ sentIn ys ↔ ∃ x ∈ ys, ∃ patience, x.operation = .send m patience := by
  unfold sentIn
  rw [List.mem_filterMap]
  refine exists_congr fun x => and_congr_right fun hx => ?_
  cases hoperation : x.operation <;> simp

/-- A step starts its collection before it sends anything. -/
theorem StepCall.mem_startedIn_of_sent {call : StepCall} {ys : List Answered}
    {r : Routine StepOutcome} (h : call.run.Course ys r) {m : Message} (hm : m ∈ sentIn ys) :
    call.requestId ∈ startedIn ys := by
  rw [run_eq] at h
  cases h with
  | stay => cases hm
  | go providers h =>
  cases h with
  | stay => cases hm
  | go now h =>
  cases h with
  | stay => cases hm
  | go p h => exact List.mem_cons_self

namespace Orchestration

variable {t : Orchestration} {o : Orchestrator} {ys : List Answered} {rest : Program.Rest RunReport}

/-- The collections of an orchestration are started by its steps. -/
theorem owns_of_started (h : Program.Course (t.program o) ys rest) {id : String}
    (hid : id ∈ startedIn ys) : t.Owns id := by
  obtain ⟨x, hx, capability, expected, strategy, timeout, hcollect⟩ := mem_startedIn.mp hid
  rcases h.exists_of_mem (t.made_program o) hx with hlooks | ⟨call, zs, r, howns, -, hcourse, hmem⟩
  · rw [hcollect] at hlooks
    cases hlooks
  · have hmay := (call.only_run.of_course hcourse).1 x hmem
    rw [hcollect] at hmay
    obtain rfl : id = call.requestId := hmay
    exact howns

/-- What an orchestration sends goes out under the id of a collection that was started before. -/
theorem started_of_sent (h : Program.Course (t.program o) ys rest) {q : Message}
    (hq : q ∈ sentIn ys) : q.requestId ∈ startedIn ys := by
  obtain ⟨x, hx, patience, hsend⟩ := mem_sentIn.mp hq
  rcases h.exists_of_mem (t.made_program o) hx with hlooks | ⟨call, zs, r, -, hsub, hcourse, hmem⟩
  · rw [hsend] at hlooks
    cases hlooks
  · obtain ⟨stamp, provider, rfl⟩ := StepCall.requests_of_course hcourse hmem hsend
    have hstarted := StepCall.mem_startedIn_of_sent hcourse (mem_sentIn.mpr ⟨x, hmem, patience, hsend⟩)
    exact (hsub.filterMap _).subset hstarted

end Orchestration

/-! ## Replies -/

/-- What may be asked for by who sends nothing but replies to a request id. -/
def Operation.Replying (requestId : String) : Operation → Prop
  | .send m _ => m.repliesTo requestId = true
  | _ => True

theorem Message.repliesTo_response (stamp : Stamp) (sender target : String) (result : Json)
    (requestId replyTo : String) :
    (response stamp sender target result requestId replyTo).repliesTo requestId = true :=
  beq_self_eq_true requestId

theorem Message.repliesTo_fault (stamp : Stamp) (sender target : String) (report : FaultReport)
    (requestId : String) (replyTo : Option String) :
    (fault stamp sender target report requestId replyTo).repliesTo requestId = true :=
  beq_self_eq_true requestId

theorem Network.only_sendFor {P : Operation → Prop} {draft : Stamp → Message}
    (hstamp : P .stamp) (hsend : ∀ stamp, P (.send (draft stamp) none)) (hhold : P .hold)
    (hrelease : P .release) {agent : Nat} (hattached : P (.attached agent)) (name : String) :
    (sendFor agent name draft).Only P := by
  have hsent : ∀ live : Bool, Routine.Only P (bif live then
      Flow.ask .stamp fun stamp => .ask (.send (draft stamp) none) fun _ => .ask .release fun _ =>
        .done (.ok ())
      else .done (.error (detached name)) : Routine (Except Fault Unit)) := by
    intro live
    cases live with
    | false => exact .done _
    | true =>
      exact .ask hstamp fun stamp => .ask (hsend stamp) fun _ => .ask hrelease fun _ => .done _
  refine .ask (o := .attached agent) hattached fun (attached : Bool) => ?_
  cases attached with
  | false => exact hsent false
  | true =>
    refine .ask (o := .hold) hhold fun (live : Bool) => ?_
    cases live with
    | false => exact hsent false
    | true => exact hsent true

namespace Agent

variable (agent : Nat) (name : String) (request : Message)

/-- Who answers a request sends a reply to its id. -/
theorem only_respond (result : Json) :
    (respond agent name request result).Only (Operation.Replying request.requestId) :=
  Network.only_sendFor trivial (fun stamp => Message.repliesTo_response stamp ..) trivial trivial
    trivial name

/-- Who refuses a request sends a reply to its id. -/
theorem only_refuse (f : Fault) :
    (refuse agent name request f).Only (Operation.Replying request.requestId) :=
  Network.only_sendFor trivial (fun stamp => Message.repliesTo_fault stamp ..) trivial trivial
    trivial name

/-- So does who reports that a request broke off. -/
theorem only_reportFailure (f : Fault) :
    (reportFailure name request f).Only (Operation.Replying request.requestId) := by
  refine .ask (o := .hold) trivial fun (live : Bool) => ?_
  cases live with
  | false => exact .done ()
  | true =>
    refine .ask (o := .stamp) trivial fun (stamp : Stamp) => ?_
    exact .ask (o := .send ..) (Message.repliesTo_fault stamp ..) fun sent =>
      .ask (o := .release) trivial fun _ => .done _

end Agent

/-! ## Orchestrations side by side -/

namespace Orchestration

/-- In the history of a network, nothing of the second of two orchestrations gets into the first
one, given what each asked for and was told. -/
structure Apart (settings : Settings) (xs : List Happening) (ys ys' : List Answered) : Prop where
  /-- They start collections for different ids. -/
  ids : (startedIn ys).Disjoint (startedIn ys')
  /-- When the second starts a collection, those of the first that wait go on waiting, with the
  replies that they have. -/
  kept : ∀ requestId ∈ startedIn ys', ∀ capability expected strategy timeout p before w w',
    (World.opened settings).Passage before w →
    w.Step [.answered ⟨.collect requestId capability expected strategy timeout, p⟩] w' →
    ∀ k col, col.requestId ∈ startedIn ys → w.bus.collector.standing k = .collecting col →
      w'.bus.collector.standing k = .collecting col
  /-- What a step of the first ended with is made of replies to its own id, and none of them is a
  reply to a message that the second sent. -/
  own : ∀ (call : StepCall) o, call.EndedIn ys o →
    ∃ (start : Collection) (ms : List Message) (timedOut : Bool),
    o = call.outcome ((start.receiveAll (ms.map Message.asReply)).conclude timedOut) ∧
    ms.Sublist (takenIn xs) ∧ (∀ m ∈ ms, m.repliesTo call.requestId = true) ∧
    ∀ m ∈ ms, ∀ q ∈ sentIn ys', m.repliesTo q.requestId = false

variable {t t' : Orchestration} {o o' : Orchestrator} {settings : Settings} {xs : List Happening}
  {w : World} {ys ys' : List Answered} {rest rest' : Program.Rest RunReport}

theorem apart_of_disjoint (hdisjoint : (startedIn ys).Disjoint (startedIn ys'))
    (h : (World.opened settings).Passage xs w) (hshown : ys.Sublist (answeredIn xs))
    (hcourse' : Program.Course (t'.program o') ys' rest') : Apart settings xs ys ys' where
  ids := hdisjoint
  kept := by
    intro requestId hid capability expected strategy timeout p before w w' hbefore hstep k col
      hcol hs
    refine hbefore.ledger.keeps_others (hbefore.tally (.opened settings)).owned hstep hs ?_
    rintro rfl
    exact hdisjoint hcol hid
  own := by
    rintro call o ⟨providers, now, p, answer, hended, rfl⟩
    have hpair := hended.trans hshown
    have hid : p.requestId = call.requestId :=
      h.requestId_pending (hpair.subset List.mem_cons_self)
    obtain ⟨e, he, rfl, htold⟩ := exists_engagement rfl hpair
    obtain ⟨start, ms, timedOut, -, hfirst, rfl⟩ := h.made_of_replies he htold
    have hreplies : ∀ m ∈ ms, m.repliesTo call.requestId = true := fun m hm =>
      hid ▸ (List.mem_filter.mp (hfirst.subset hm)).2
    refine ⟨start, ms, timedOut, rfl, hfirst.sublist.trans (replies_sublist he), hreplies,
      fun m hm q hq => ?_⟩
    have hstarted : call.requestId ∈ startedIn ys :=
      mem_startedIn.mpr ⟨_, hended.subset List.mem_cons_self, _, _, _, _, rfl⟩
    have hne : call.requestId ≠ q.requestId := fun heq =>
      hdisjoint hstarted (heq ▸ started_of_sent hcourse' hq)
    obtain ⟨-, hm⟩ : m.kind.isReply = true ∧ m.requestId = call.requestId := by
      simpa [Message.repliesTo] using hreplies m hm
    simp [Message.repliesTo, hm, hne]

/-- They share an id just when a step that the one has started is tangled with one of the other. -/
theorem disjoint_started_iff (hids : t.requestId ≠ t'.requestId)
    (hcourse : Program.Course (t.program o) ys rest)
    (hcourse' : Program.Course (t'.program o') ys' rest') :
    (startedIn ys).Disjoint (startedIn ys') ↔
      ∀ key ∈ t.keys, ∀ key' ∈ t'.keys, StepCall.subId t.requestId key ∈ startedIn ys →
        StepCall.subId t'.requestId key' ∈ startedIn ys' →
        ¬ Tangled t.requestId key t'.requestId key' ∧
          ¬ Tangled t'.requestId key' t.requestId key := by
  constructor
  · intro hdisjoint key _ key' _ hstarted hstarted'
    rw [← not_or, ← StepCall.subId_eq_iff hids]
    exact fun heq => hdisjoint hstarted (heq ▸ hstarted')
  · intro huntangled id hid hid'
    obtain ⟨key, hkey, rfl⟩ := owns_of_started hcourse hid
    obtain ⟨key', hkey', heq⟩ := owns_of_started hcourse' hid'
    obtain ⟨hnot, hnot'⟩ := huntangled key hkey key' hkey' hid (heq ▸ hid')
    rcases (StepCall.subId_eq_iff hids).mp heq with htangled | htangled
    · exact hnot htangled
    · exact hnot' htangled

/-- **Concurrent orchestrations do not mix unless their steps are tangled.** However the work of a
network takes turns, of two orchestrated requests with different ids these are the same: they start
collections for different ids, a collection that the one starts leaves those of the other as they
are, and no step of the one ends with a reply to a message of the other; and no step that the one has
started is tangled with one that the other has started. -/
theorem apart_iff (hids : t.requestId ≠ t'.requestId)
    (h : (World.opened settings).Passage xs w)
    (hcourse : Program.Course (t.program o) ys rest) (hshown : ys.Sublist (answeredIn xs))
    (hcourse' : Program.Course (t'.program o') ys' rest')
    (hshown' : ys'.Sublist (answeredIn xs)) :
    Apart settings xs ys ys' ∧ Apart settings xs ys' ys ↔
      ∀ key ∈ t.keys, ∀ key' ∈ t'.keys, StepCall.subId t.requestId key ∈ startedIn ys →
        StepCall.subId t'.requestId key' ∈ startedIn ys' →
        ¬ Tangled t.requestId key t'.requestId key' ∧
          ¬ Tangled t'.requestId key' t.requestId key := by
  rw [← disjoint_started_iff hids hcourse hcourse']
  constructor
  · exact fun hapart => hapart.1.ids
  · exact fun hdisjoint => ⟨apart_of_disjoint hdisjoint h hshown hcourse',
      apart_of_disjoint hdisjoint.symm h hshown' hcourse⟩

/-- Requests do not mix if no key of a step has a colon. -/
theorem apart_of_plain (hids : t.requestId ≠ t'.requestId)
    (hplain : ∀ key ∈ t.keys, ':' ∉ key.toList) (hplain' : ∀ key ∈ t'.keys, ':' ∉ key.toList)
    (h : (World.opened settings).Passage xs w)
    (hcourse : Program.Course (t.program o) ys rest) (hshown : ys.Sublist (answeredIn xs))
    (hcourse' : Program.Course (t'.program o') ys' rest') : Apart settings xs ys ys' :=
  apart_of_disjoint ((disjoint_started_iff hids hcourse hcourse').mpr fun key hkey key' hkey' _ _ =>
    ⟨not_tangled (hplain key hkey), not_tangled (hplain' key' hkey')⟩) h hshown hcourse'

/-- A network with one agent, which answers 2 to `b` and 1 to all else. -/
def answering : List World.Deed :=
  let p := Agent.scripted "p" ["a:b"] [{ ending := .respond (.nat 1) }]
    [("b", [{ ending := .respond (.nat 2) }])]
  [.create p, .register 0, .start]

/-- On this network both send their requests, the agent answers them one after another, and both go
on. -/
def duet (t t' : Orchestration) : Duet RunReport :=
  (Duet.start (answering.foldl World.deed (World.opened {})) (t.program ⟨"j", 50, 100⟩)
    (t'.program ⟨"k", 50, 100⟩)).run
      [.first, .second, .delivery, .lane 0, .delivery, .first, .second]

/-- The history of the network shows what both were told up to their ends. -/
theorem exists_history_duet (t t' : Orchestration) :
    ∃ xs, (World.opened {}).Passage xs (duet t t').world ∧
      (∀ report, (duet t t').first.turn.value? = some report →
        Program.Course (t.program ⟨"j", 50, 100⟩) (duet t t').first.told ⟨.done report, none⟩ ∧
          (duet t t').first.told.Sublist (answeredIn xs)) ∧
      ∀ report, (duet t t').second.turn.value? = some report →
        Program.Course (t'.program ⟨"k", 50, 100⟩) (duet t t').second.told ⟨.done report, none⟩ ∧
          (duet t t').second.told.Sublist (answeredIn xs) := by
  obtain ⟨ys, hagents, -⟩ := World.passage_deeds (World.opened {}) answering
  obtain ⟨xs, hpassage, hfirst, hsecond⟩ := (Duet.kept_start hagents (t.program ⟨"j", 50, 100⟩)
    (t'.program ⟨"k", 50, 100⟩)).run
      [.first, .second, .delivery, .lane 0, .delivery, .first, .second]
  exact ⟨xs, hpassage, fun report hreport => hfirst _ (Turn.left?_of_value? hreport),
    fun report hreport => hsecond _ (Turn.left?_of_value? hreport)⟩

/-- A graph and a sequence of one step each, whose steps are not tangled: each has its own answer. -/
theorem apart_graph_sequence :
    let t : Orchestration := .graph { requestId := "r", graph := ⟨[("a:b", [])]⟩ }
    let t' : Orchestration := .sequence "s" [{ capability := "b", assignedAgent := some "p" }]
    let d := duet t t'
    d.first.turn.value?.map (·.results) = some [("a:b", .nat 1)] ∧
    d.second.turn.value?.map (·.results) = some [("b", .nat 2)] ∧
    startedIn d.first.told = ["r:a:b"] ∧ startedIn d.second.told = ["s:b"] ∧
    ∃ xs, (World.opened {}).Passage xs d.world ∧
      Apart {} xs d.first.told d.second.told ∧ Apart {} xs d.second.told d.first.told := by
  intro t t' d
  have hfirst : d.first.turn.value?.map (·.results) = some [("a:b", .nat 1)] := by decide +kernel
  have hsecond : d.second.turn.value?.map (·.results) = some [("b", .nat 2)] := by decide +kernel
  have hstarted : startedIn d.first.told = ["r:a:b"] := by decide +kernel
  have hstarted' : startedIn d.second.told = ["s:b"] := by decide +kernel
  have hids : t.requestId ≠ t'.requestId := by decide
  obtain ⟨report, hreport, -⟩ := Option.map_eq_some_iff.mp hfirst
  obtain ⟨report', hreport', -⟩ := Option.map_eq_some_iff.mp hsecond
  obtain ⟨xs, hpassage, hhistory, hhistory'⟩ := exists_history_duet t t'
  obtain ⟨hcourse, hshown⟩ := hhistory report hreport
  obtain ⟨hcourse', hshown'⟩ := hhistory' report' hreport'
  refine ⟨hfirst, hsecond, hstarted, hstarted', xs, hpassage,
    (apart_iff hids hpassage hcourse hshown hcourse' hshown').mpr ?_⟩
  intro key hkey key' hkey' _ _
  obtain rfl : key = "a:b" := List.mem_singleton.mp hkey
  obtain rfl : key' = "b" := List.mem_singleton.mp hkey'
  rw [← not_or, ← StepCall.subId_eq_iff hids]
  decide

/-- The step `a:b` of the request `r` and the step `b` of the request `r:a` have the same id. The
second one ends the collection of the first one, whose step is timed out, and ends itself with the
reply to the message of the first. -/
theorem tangled_mixed :
    let t : Orchestration := .graph { requestId := "r", graph := ⟨[("a:b", [])]⟩ }
    let t' : Orchestration := .sequence "r:a" [{ capability := "b", assignedAgent := some "p" }]
    let d := duet t t'
    t.requestId ≠ t'.requestId ∧
    d.first.turn.value?.map (·.timedOut) = some ["a:b"] ∧
    d.second.turn.value?.map (·.results) = some [("b", .nat 1)] ∧
    startedIn d.first.told = ["r:a:b"] ∧ startedIn d.second.told = ["r:a:b"] ∧
    ∃ xs, (World.opened {}).Passage xs d.world ∧
      ¬ Apart {} xs d.first.told d.second.told := by
  intro t t' d
  have hstarted : startedIn d.first.told = ["r:a:b"] := by decide +kernel
  have hstarted' : startedIn d.second.told = ["r:a:b"] := by decide +kernel
  obtain ⟨xs, hpassage, -⟩ := exists_history_duet t t'
  refine ⟨by decide, by decide +kernel, by decide +kernel, hstarted, hstarted', xs, hpassage,
    fun hapart => ?_⟩
  have hdisjoint := hapart.ids
  rw [hstarted, hstarted'] at hdisjoint
  exact hdisjoint List.mem_cons_self List.mem_cons_self

end Orchestration

end Switchboard
