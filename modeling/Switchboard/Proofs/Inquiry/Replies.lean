import Switchboard.Inquiry
import Switchboard.Proofs.Bus.Collections

/-!
# When a request to others is complete

The records of an agent change by three calls: a request is recorded, a reply is added to the record
of its request, a record is given up. They come in any order and for any request ids. The record of
one id is complete at the first reply after which no provider on its list is silent; strangers and
repeated replies are kept in it, and do not count twice.

* `get?_remove`, `get?_track`, `get?_put` : the record of an id after a change of the table;
* `Inquiry.heard` : a record with more replies; `Inquiry.outstanding_heard` : who is silent then;
* `Inquiries.Change`, `Inquiries.changes` : calls, and the table after them;
  `Inquiries.get?_change` : a call leaves the records of other ids alone;
* `Inquiries.get?_changes` : the record of an id after any calls since it was tracked;
* `Inquiries.completes_once` : what the calls return.
-/

namespace Switchboard

/-! ## Replies in a record -/

/-- The providers that sent none of some messages, as often as they are listed. -/
def silent (providers : List String) (ms : List Message) : List String :=
  providers.filter fun p => ms.all (·.fromAgent != p)

theorem silent_concat (providers : List String) (ms : List Message) (m : Message) :
    silent providers (ms ++ [m]) = (silent providers ms).filter (m.fromAgent != ·) := by
  simp [silent, List.filter_filter, Bool.and_comm]

theorem silent_concat_eq_nil {providers : List String} {ms : List Message} (m : Message)
    (h : silent providers ms = []) : silent providers (ms ++ [m]) = [] := by
  rw [silent_concat, h, List.filter_nil]

namespace Inquiry

/-- The record of a request that was just sent. -/
def asked (now : Nat) (requestId capability : String) (providers : List String) (data : Json) :
    Inquiry :=
  { requestId, capability, providers, data, createdAt := now }

/-- A record with the replies among some messages, responses and decoded errors apart. -/
def heard (i : Inquiry) (ms : List Message) : Inquiry :=
  { i with
    responses := i.responses ++
      (ms.filter (decide <| ·.kind = .capabilityResponse)).map fun m => (m.fromAgent, m.content)
    errors := i.errors ++ ms.filterMap fun m => m.faultReport?.map (m.fromAgent, ·) }

variable (i : Inquiry)

@[simp] theorem heard_nil : i.heard [] = i := by simp [heard]

/-- A reply is added at the end, a message of another kind is refused. -/
theorem addReply_heard (ms : List Message) (m : Message) :
    (i.heard ms).addReply m = if m.kind.isReply then some (i.heard (ms ++ [m])) else none := by
  cases hkind : m.kind <;>
    simp [addReply, heard, Message.faultReport?, MessageKind.isReply, hkind]

theorem addReply_of_not_isReply {m : Message} (h : m.kind.isReply = false) :
    i.addReply m = none := by
  simpa [h] using i.addReply_heard [] m

theorem hasReplied_addReply {i j : Inquiry} {m : Message} (h : i.addReply m = some j) (p : String) :
    j.hasReplied p = (i.hasReplied p || m.fromAgent == p) := by
  cases hkind : m.kind <;> simp only [addReply, hkind, Option.some.injEq, reduceCtorEq] at h
  all_goals
    subst h
    simp [hasReplied, Bool.or_assoc, Bool.or_comm, Bool.or_left_comm]

theorem hasReplied_heard {ms : List Message} (hms : ∀ m ∈ ms, m.kind.isReply = true) (p : String) :
    (i.heard ms).hasReplied p = (i.hasReplied p || ms.any (·.fromAgent == p)) := by
  induction ms using List.reverseRecOn with
  | nil => simp
  | append_singleton ms m ih =>
    have hadded : (i.heard ms).addReply m = some (i.heard (ms ++ [m])) := by
      rw [addReply_heard, if_pos (hms m (by simp))]
    rw [hasReplied_addReply hadded, ih fun x hx => hms x (List.mem_append_left _ hx)]
    simp [Bool.or_assoc]

/-- The providers that a fresh record still waits for after some replies. -/
theorem outstanding_heard (now : Nat) (requestId capability : String) (providers : List String)
    (data : Json) {ms : List Message} (hms : ∀ m ∈ ms, m.kind.isReply = true) :
    ((asked now requestId capability providers data).heard ms).outstanding =
      silent providers ms := by
  refine List.filter_congr fun p _ => ?_
  rw [hasReplied_heard _ hms]
  simp [asked, hasReplied, List.not_any_eq_all_not, bne]

end Inquiry

/-! ## The table -/

namespace Inquiries

variable (is : Inquiries)

theorem get?_remove (id key : String) :
    (is.remove id).get? key = if key = id then none else is.get? key := by
  rw [get?, remove, List.find?_filter]
  split
  · next heq =>
    subst heq
    simp [List.find?_eq_none]
  · next hne =>
    refine congrArg is.find? (funext fun i => ?_)
    by_cases hi : i.requestId = key <;> simp [hi, hne]

theorem get?_track (now : Nat) (id capability : String) (providers : List String) (data : Json)
    (key : String) :
    (is.track now id capability providers data).get? key =
      if key = id then some (.asked now id capability providers data) else is.get? key := by
  have hremoved := is.get?_remove id key
  rw [track, get?, List.find?_append, ← get?, hremoved]
  split
  · next heq => simp [heq, Inquiry.asked]
  · next hne => simp [Ne.symm hne]

theorem get?_put (i : Inquiry) (key : String) :
    (is.put i).get? key =
      if key = i.requestId then (is.get? key).map fun _ => i else is.get? key := by
  induction is with
  | nil => simp [get?, put]
  | cons j is ih =>
    simp only [put, get?] at ih ⊢
    grind

theorem requestId_of_get? {is : Inquiries} {id : String} {i : Inquiry} (h : is.get? id = some i) :
    i.requestId = id := by
  simpa using List.find?_some h

/-- A reply without a record is not known. -/
theorem recordReply_of_none {m : Message} (h : is.get? m.requestId = none) :
    is.recordReply m = (is, .unknown) := by
  simp [recordReply, h]

/-- A message of another kind is no reply, whatever its request id. -/
theorem recordReply_of_not_isReply {m : Message} (h : m.kind.isReply = false) :
    is.recordReply m = (is, .unknown) := by
  have hnone : (is.get? m.requestId).bind (·.addReply m) = none := by
    cases is.get? m.requestId with
    | none => rfl
    | some i => exact i.addReply_of_not_isReply h
  simp [recordReply, hnone]

/-- A reply to a record closes it, or is kept in it. -/
theorem recordReply_of_some {m : Message} (hm : m.kind.isReply = true) {i : Inquiry}
    {ms : List Message} (h : is.get? m.requestId = some (i.heard ms)) :
    is.recordReply m =
      if (i.heard (ms ++ [m])).outstanding = [] then
        (is.remove m.requestId, .complete (i.heard (ms ++ [m])))
      else (is.put (i.heard (ms ++ [m])), .pending (i.heard (ms ++ [m])).outstanding.length) := by
  have hadded : (is.get? m.requestId).bind (·.addReply m) = some (i.heard (ms ++ [m])) := by
    rw [h, Option.bind_some, Inquiry.addReply_heard, if_pos hm]
  rw [recordReply, hadded]
  cases hout : (i.heard (ms ++ [m])).outstanding <;> simp [hout]

/-! ## Calls one after another -/

/-- A call on the table. -/
inductive Change where
  | track (now : Nat) (requestId capability : String) (providers : List String) (data : Json)
  | reply (m : Message)
  | remove (requestId : String)

namespace Change

/-- The request that a call is about. -/
def requestId : Change → String
  | track _ id _ _ _ => id
  | reply m => m.requestId
  | remove id => id

/-- The call only adds a reply, or is about another request. -/
def Spares (id : String) : Change → Prop
  | reply _ => True
  | c => c.requestId ≠ id

/-- The call records a request of this id. -/
def Tracks (id : String) : Change → Prop
  | track _ key _ _ _ => key = id
  | _ => False

/-- The reply to a request that a call adds. -/
def reply? (id : String) : Change → Option Message
  | reply m => if m.repliesTo id then some m else none
  | _ => none

end Change

/-- The table after a call. -/
def change (is : Inquiries) : Change → Inquiries
  | .track now id capability providers data => is.track now id capability providers data
  | .reply m => (is.recordReply m).1
  | .remove id => is.remove id

/-- The table after some calls. -/
def changes (is : Inquiries) (cs : List Change) : Inquiries := cs.foldl change is

/-- The replies to a request that some calls add. -/
def repliesAmong (id : String) (cs : List Change) : List Message := cs.filterMap (·.reply? id)

@[simp] theorem changes_concat (cs : List Change) (c : Change) :
    is.changes (cs ++ [c]) = (is.changes cs).change c := by
  simp [changes]

@[simp] theorem repliesAmong_concat (id : String) (cs : List Change) (c : Change) :
    repliesAmong id (cs ++ [c]) = repliesAmong id cs ++ (c.reply? id).toList := by
  cases h : c.reply? id <;> simp [repliesAmong, h]

theorem isReply_of_mem_repliesAmong {id : String} {cs : List Change} {m : Message}
    (hm : m ∈ repliesAmong id cs) : m.kind.isReply = true := by
  obtain ⟨c, -, hc⟩ := List.mem_filterMap.mp hm
  cases c with
  | reply x =>
    obtain ⟨hreply, hx⟩ := Option.ite_none_right_eq_some.mp hc
    rw [← Option.some.inj hx]
    exact (Bool.and_eq_true_iff.mp hreply).1
  | _ => cases hc

/-- A call leaves the records of other ids alone. -/
theorem get?_change (c : Change) {id : String} (hid : id ≠ c.requestId) :
    (is.change c).get? id = is.get? id := by
  cases c with
  | track now key capability providers data =>
    exact (is.get?_track now key capability providers data id).trans (if_neg hid)
  | remove key => exact (is.get?_remove key id).trans (if_neg hid)
  | reply m =>
    rw [change]
    cases hi : is.get? m.requestId with
    | none => rw [recordReply_of_none is hi]
    | some i =>
      cases hm : m.kind.isReply with
      | false => rw [recordReply_of_not_isReply is hm]
      | true =>
        rw [recordReply_of_some is hm (i.heard_nil.symm ▸ hi)]
        split
        · exact (is.get?_remove m.requestId id).trans (if_neg hid)
        · exact (is.get?_put _ id).trans (if_neg (requestId_of_get? hi ▸ hid))

/-- Without a record, and until the request is recorded again, there is none. -/
theorem get?_changes_of_none {id : String} (h : is.get? id = none) {cs : List Change}
    (hcs : ∀ c ∈ cs, ¬ c.Tracks id) : (is.changes cs).get? id = none := by
  induction cs using List.reverseRecOn with
  | nil => exact h
  | append_singleton cs c ih =>
    have hbefore := ih fun x hx => hcs x (List.mem_append_left _ hx)
    rw [changes_concat]
    by_cases hid : id = c.requestId
    · have hc := hcs c (by simp)
      cases c with
      | track now key capability providers data => exact absurd hid.symm hc
      | remove key => exact (get?_remove _ key id).trans (if_pos hid)
      | reply m =>
        obtain rfl : id = m.requestId := hid
        rw [change, recordReply_of_none _ hbefore]
        exact hbefore
    · rw [get?_change _ c hid, hbefore]

section Tracked

variable (now : Nat) (id capability : String) (providers : List String) (data : Json)

/-- What is recorded of a request once some replies to it came. -/
def standing (ms : List Message) : Option Inquiry :=
  if silent providers ms = [] then none
  else some ((Inquiry.asked now id capability providers data).heard ms)

/-- What one more reply does: too late, the one that completes the record, or one of several. -/
theorem recordReply_of_standing {ms : List Message} (hms : ∀ x ∈ ms, x.kind.isReply = true)
    (h : is.get? id = standing now id capability providers data ms)
    {m : Message} (hm : m.repliesTo id = true) :
    is.recordReply m =
      if silent providers ms = [] then (is, .unknown)
      else if silent providers (ms ++ [m]) = [] then
        (is.remove id, .complete ((Inquiry.asked now id capability providers data).heard (ms ++ [m])))
      else
        (is.put ((Inquiry.asked now id capability providers data).heard (ms ++ [m])),
          .pending (silent providers (ms ++ [m])).length) := by
  obtain ⟨hkind, hid⟩ := Bool.and_eq_true_iff.mp hm
  obtain rfl : m.requestId = id := beq_iff_eq.mp hid
  by_cases hsilent : silent providers ms = []
  · rw [if_pos hsilent]
    rw [standing, if_pos hsilent] at h
    exact is.recordReply_of_none h
  · rw [standing, if_neg hsilent] at h
    have hall : ∀ x ∈ ms ++ [m], x.kind.isReply = true := by
      intro x hx
      rcases List.mem_append.mp hx with hold | hnew
      · exact hms x hold
      · exact List.mem_singleton.mp hnew ▸ hkind
    rw [if_neg hsilent, is.recordReply_of_some hkind h, Inquiry.outstanding_heard _ _ _ _ _ hall]

/-- The record of a request after any calls since it was tracked, if none of them tracks it again or
gives it up: the replies to it, until no provider is silent. -/
theorem get?_changes (hproviders : providers ≠ []) {cs : List Change}
    (hcs : ∀ c ∈ cs, c.Spares id) :
    ((is.track now id capability providers data).changes cs).get? id =
      standing now id capability providers data (repliesAmong id cs) := by
  induction cs using List.reverseRecOn with
  | nil => simp [changes, get?_track, standing, repliesAmong, silent, hproviders]
  | append_singleton cs c ih =>
    have hbefore := ih fun x hx => hcs x (List.mem_append_left _ hx)
    have hc := hcs c (by simp)
    rw [changes_concat, repliesAmong_concat]
    cases hreply : c.reply? id with
    | none =>
      rw [Option.toList_none, List.append_nil, ← hbefore]
      by_cases hid : id = c.requestId
      · cases c with
        | reply m =>
          have hkind : m.kind.isReply = false := by
            obtain rfl : id = m.requestId := hid
            simpa [Change.reply?, Message.repliesTo] using hreply
          rw [change, recordReply_of_not_isReply _ hkind]
        | _ => exact absurd hid.symm hc
      · exact get?_change _ c hid
    | some m =>
      cases c with
      | reply x =>
        obtain ⟨hm, hx⟩ := Option.ite_none_right_eq_some.mp hreply
        obtain rfl : x = m := Option.some.inj hx
        have hid : id = x.requestId := (beq_iff_eq.mp (Bool.and_eq_true_iff.mp hm).2).symm
        have hold : ∀ y ∈ repliesAmong id cs, y.kind.isReply = true := fun _ =>
          isReply_of_mem_repliesAmong
        rw [change, recordReply_of_standing _ _ _ _ _ _ hold hbefore hm, Option.toList_some,
          standing]
        by_cases hsilent : silent providers (repliesAmong id cs) = []
        · rw [if_pos hsilent, if_pos (silent_concat_eq_nil x hsilent), hbefore, standing,
            if_pos hsilent]
        · rw [if_neg hsilent]
          split
          · exact (get?_remove _ id id).trans (if_pos rfl)
          · refine (get?_put _ _ id).trans ((if_pos rfl).trans ?_)
            rw [hbefore, standing, if_neg hsilent, Option.map_some]
      | _ => cases hreply

end Tracked

/-- What the calls on a table return that holds the record `asked` with some replies to it. -/
structure CompletesOnce (table : Inquiries) (asked : Inquiry) (replies : List Message) : Prop where
  /-- A reply after which providers are silent tells how many, and is kept with the others. -/
  pending {m : Message} (hm : m.repliesTo asked.requestId = true)
      (hsilent : 0 < (silent asked.providers (replies ++ [m])).length) :
    (table.recordReply m).2 = .pending (silent asked.providers (replies ++ [m])).length ∧
      (table.recordReply m).1.get? asked.requestId = some (asked.heard (replies ++ [m]))
  /-- The first reply after which none is silent returns the record with all replies and closes it. -/
  complete {m : Message} (hm : m.repliesTo asked.requestId = true)
      (hbefore : silent asked.providers replies ≠ [])
      (hsilent : silent asked.providers (replies ++ [m]) = []) :
    table.recordReply m = (table.remove asked.requestId, .complete (asked.heard (replies ++ [m])))
  /-- From then on, and until the request is recorded again, no reply to it is known. -/
  unknown {m : Message} (hm : m.repliesTo asked.requestId = true)
      (hsilent : silent asked.providers (replies ++ [m]) = [])
      {later : List Change} (hlater : ∀ c ∈ later, ¬ c.Tracks asked.requestId)
      {x : Message} (hx : x.repliesTo asked.requestId = true) :
    let after := (table.recordReply m).1.changes later
    after.recordReply x = (after, .unknown)
  /-- A message of another kind changes nothing, whatever its request id. -/
  otherKind {m : Message} (hm : m.kind.isReply = false) : table.recordReply m = (table, .unknown)
  /-- A call leaves the records of other ids alone. -/
  apart (c : Change) {id : String} (hid : id ≠ c.requestId) :
    (table.change c).get? id = table.get? id

/-- However the calls of several requests come in between, a request completes at the reply of its
last provider, once. -/
theorem completes_once (is : Inquiries) (now : Nat) (id capability : String)
    {providers : List String} (data : Json) (hproviders : providers ≠ []) {cs : List Change}
    (hcs : ∀ c ∈ cs, c.Spares id) :
    CompletesOnce ((is.track now id capability providers data).changes cs)
      (.asked now id capability providers data) (repliesAmong id cs) := by
  have hget := get?_changes is now id capability providers data hproviders hcs
  have hreplies : ∀ m ∈ repliesAmong id cs, m.kind.isReply = true := fun _ =>
    isReply_of_mem_repliesAmong
  have hreply {m : Message} (hm : m.repliesTo id = true) :=
    recordReply_of_standing _ now id capability providers data hreplies hget hm
  generalize (is.track now id capability providers data).changes cs = table at hget hreply
  generalize repliesAmong id cs = replies at hget hreply hreplies
  have hrest {m : Message} (hm : m.repliesTo id = true)
      (hsilent : silent providers (replies ++ [m]) = []) :
      (table.recordReply m).1.get? id = none := by
    rw [hreply hm]
    by_cases hbefore : silent providers replies = []
    · rw [if_pos hbefore, hget, standing, if_pos hbefore]
    · rw [if_neg hbefore, if_pos hsilent]
      exact (get?_remove table id id).trans (if_pos rfl)
  refine ⟨fun {m} hm hsilent => ?_, fun {m} hm hbefore hsilent => ?_,
    fun {m} hm hsilent {later} hlater {x} hx => ?_, recordReply_of_not_isReply table,
    get?_change table⟩
  · have hne : silent providers (replies ++ [m]) ≠ [] := List.length_pos_iff.mp hsilent
    have hbefore : silent providers replies ≠ [] := fun h => hne (silent_concat_eq_nil m h)
    rw [hreply hm, if_neg hbefore, if_neg hne]
    refine ⟨rfl, (get?_put table _ id).trans ((if_pos rfl).trans ?_)⟩
    rw [hget, standing, if_neg hbefore, Option.map_some]
  · exact (hreply hm).trans ((if_neg hbefore).trans (if_pos hsilent))
  · have hnone := get?_changes_of_none _ (hrest hm hsilent) hlater
    have hid : x.requestId = id := beq_iff_eq.mp (Bool.and_eq_true_iff.mp hx).2
    exact recordReply_of_none _ (hid ▸ hnone)

/-- Two providers of which one is listed twice: neither its second reply nor the one of a stranger
counts, nor does the work on another request, and the error of the other provider completes the
record. -/
theorem completes_once_at_second_provider :
    let result : Message := .response ⟨"m-1", default⟩ "weather" "nlu" (.bool true) "req-1" "q-1"
    let stranger : Message := .response ⟨"m-2", default⟩ "chat" "nlu" .null "req-1" "q-1"
    let failure : Message :=
      .fault ⟨"m-3", default⟩ "search" "nlu" (Fault.timeout "slow" none).report "req-1" none
    let table := (track [] 7 "req-1" "get_weather" ["weather", "search", "weather"] .null).changes
      [.reply stranger, .track 8 "req-2" "chat" ["chat"] .null, .reply result, .remove "req-2"]
    (table.recordReply result).2 = .pending 1 ∧
      (table.recordReply failure).2 = .complete
        { requestId := "req-1", capability := "get_weather",
          providers := ["weather", "search", "weather"], data := .null, createdAt := 7,
          responses := [("chat", .null), ("weather", .bool true)],
          errors := [("search", .ofContent failure.content)] } := by
  intro result stranger failure table
  have hproviders : ["weather", "search", "weather"] ≠ [] := by simp
  have hspares : ∀ c ∈ [.reply stranger, .track 8 "req-2" "chat" ["chat"] .null, .reply result,
      .remove "req-2"], Change.Spares "req-1" c := by
    simp [Change.Spares, Change.requestId]
  have hcounts := completes_once [] 7 "req-1" "get_weather" .null hproviders hspares
  refine ⟨(hcounts.pending (by decide +kernel) (by decide +kernel)).1.trans ?_,
    (congrArg Prod.snd (hcounts.complete (by decide +kernel) (by decide +kernel)
      (by decide +kernel))).trans ?_⟩
  · decide +kernel
  · decide +kernel

end Inquiries

end Switchboard
