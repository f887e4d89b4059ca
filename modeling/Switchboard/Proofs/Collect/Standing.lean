import Switchboard.Collect.Collector
import Switchboard.Proofs.Keyed

/-!
# How each registration stands

The table keeps one collection under each id, and answers are put aside under handles. Seen from a
handle there are three possibilities: it was never given out, its collection waits for replies, or
its answer is put aside. Every operation on the table acts on each handle alone.

* `Standing` : how a registration stands; `Collector.standing` : the same read off the table;
* `Collector.Sound` : what holds the table, the answers and the handles together;
* `Sound.resolveWhere`, `Sound.discard`, `Sound.put`, `Sound.enroll` : the ways in which a table
  changes, and after each of them what became of every registration;
* `Sound.expire`, `Sound.register`, `Sound.receive`, `Sound.sweep` : the operations;
* `Collector.standing_expire` and its like : what an operation does to a registration.
-/

namespace Switchboard

/-- A reply to a request. -/
structure Reply where
  sender : String
  content : Json
  isError : Bool := false
  deriving DecidableEq, Inhabited

def Collection.receive (c : Collection) (r : Reply) : Collection :=
  c.add r.sender r.content r.isError

def Collection.receiveAll (c : Collection) (replies : List Reply) : Collection :=
  replies.foldl receive c

def Collector.receive (requestId : String) (r : Reply) (c : Collector) : Collector × Bool :=
  c.add requestId r.sender r.content r.isError

/-- How a registration stands. -/
inductive Standing where
  /-- There is no such registration. -/
  | unknown
  | collecting (c : Collection)
  | answered (a : Collected)
  deriving DecidableEq

namespace Standing

/-- A selected collection is answered with what it has. -/
def answerWhere (timedOut : Bool) (selected : Collection → Bool) : Standing → Standing
  | collecting c => if selected c then answered (c.conclude timedOut) else collecting c
  | s => s

/-- A collection of this request takes a reply, which may complete it. -/
def receive (requestId : String) (r : Reply) : Standing → Standing
  | collecting c =>
    if c.requestId == requestId then
      if (c.receive r).isComplete then answered ((c.receive r).conclude false)
      else collecting (c.receive r)
    else collecting c
  | s => s

theorem answerWhere_answerWhere (t t' : Bool) (f : Collection → Bool) (s : Standing) :
    (s.answerWhere t f).answerWhere t' f = s.answerWhere t f := by
  cases s with
  | unknown => rfl
  | answered a => rfl
  | collecting c =>
    by_cases hf : f c = true
    · simp [answerWhere, hf]
    · simp [answerWhere, hf]

end Standing

namespace Collector

/-- How a registration stands, by its handle. -/
def standing (c : Collector) (handle : Nat) : Standing :=
  match c.result? handle with
  | some a => .answered a
  | none =>
    match c.entries.find? fun e => e.handle == handle && !e.resolved with
    | some e => .collecting e.collection
    | none => .unknown

/-- Ids and handles stand in the table once, handles have one answer, the answered collections of
the table are those whose handle has its answer, and every handle that was given out is in the
table or answered. -/
structure Sound (c : Collector) : Prop where
  ids : (c.entries.map (·.collection.requestId)).Nodup
  handles : (c.entries.map (·.handle)).Nodup
  answers : (c.results.map (·.1)).Nodup
  resolved : ∀ e ∈ c.entries, e.resolved = true ↔ e.handle ∈ c.results.map (·.1)
  given : ∀ k, k < c.next ↔ k ∈ c.results.map (·.1) ∨ k ∈ c.entries.map (·.handle)

theorem sound_empty : Sound {} := by
  constructor <;> simp

variable {c : Collector} {k : Nat} {col : Collection} {a : Collected}

/-! ## Reading a standing off the table -/

theorem result?_eq_some_iff (h : c.Sound) : c.result? k = some a ↔ (k, a) ∈ c.results := by
  unfold result?
  rw [Option.map_eq_some_iff]
  constructor
  · rintro ⟨⟨k', a'⟩, hfind, rfl⟩
    obtain ⟨hmem, rfl⟩ := (find?_key_eq_some_iff h.answers).mp hfind
    exact hmem
  · intro hmem
    exact ⟨(k, a), (find?_key_eq_some_iff h.answers).mpr ⟨hmem, rfl⟩, rfl⟩

theorem result?_eq_none_iff : c.result? k = none ↔ k ∉ c.results.map (·.1) := by
  unfold result?
  rw [Option.map_eq_none_iff, find?_key_eq_none_iff]

theorem standing_eq_answered_iff (h : c.Sound) :
    c.standing k = .answered a ↔ (k, a) ∈ c.results := by
  rw [← result?_eq_some_iff h, standing]
  cases c.result? k with
  | some a' => simp
  | none =>
    cases c.entries.find? fun e => e.handle == k && !e.resolved <;> simp

theorem open_not_answered (h : c.Sound) (he : ⟨k, col, false⟩ ∈ c.entries) :
    c.result? k = none := by
  rw [result?_eq_none_iff]
  intro hmem
  have hres := (h.resolved _ he).mpr hmem
  cases hres

theorem standing_eq_collecting_iff (h : c.Sound) :
    c.standing k = .collecting col ↔ ⟨k, col, false⟩ ∈ c.entries := by
  constructor
  · intro hs
    unfold standing at hs
    split at hs
    · cases hs
    · split at hs
      · rename_i e hfind
        obtain rfl := Standing.collecting.inj hs
        have hp := List.find?_some hfind
        obtain ⟨handle, col, resolved⟩ := e
        simp only [Bool.and_eq_true, beq_iff_eq, Bool.not_eq_true'] at hp
        obtain ⟨rfl, rfl⟩ := hp
        exact List.mem_of_find?_eq_some hfind
      · cases hs
  · intro he
    unfold standing
    rw [open_not_answered h he]
    cases hfind : c.entries.find? fun e => e.handle == k && !e.resolved with
    | none =>
      have hnone := List.find?_eq_none.mp hfind _ he
      simp at hnone
    | some e =>
      have hp := List.find?_some hfind
      simp only [Bool.and_eq_true, beq_iff_eq, Bool.not_eq_true'] at hp
      have heq : e = ⟨k, col, false⟩ :=
        List.inj_on_of_nodup_map h.handles (List.mem_of_find?_eq_some hfind) he hp.1
      rw [heq]

theorem standing_eq_unknown_iff (h : c.Sound) : c.standing k = .unknown ↔ c.next ≤ k := by
  constructor
  · intro hs
    by_contra hlt
    rcases (h.given k).mp (Nat.lt_of_not_le hlt) with hans | hent
    · obtain ⟨⟨k', a⟩, hmem, rfl⟩ := List.mem_map.mp hans
      rw [(standing_eq_answered_iff h).mpr hmem] at hs
      cases hs
    · obtain ⟨⟨k', col, resolved⟩, he, rfl⟩ := List.mem_map.mp hent
      cases resolved with
      | false =>
        rw [(standing_eq_collecting_iff h).mpr he] at hs
        cases hs
      | true =>
        obtain ⟨⟨k'', a⟩, hmem, rfl⟩ := List.mem_map.mp ((h.resolved _ he).mp rfl)
        rw [(standing_eq_answered_iff h).mpr hmem] at hs
        cases hs
  · intro hle
    cases hs : c.standing k with
    | unknown => rfl
    | answered a =>
      have hmem := (standing_eq_answered_iff h).mp hs
      have hlt := (h.given k).mpr (.inl (List.mem_map_of_mem hmem))
      omega
    | collecting col =>
      have hmem := (standing_eq_collecting_iff h).mp hs
      have hlt := (h.given k).mpr (.inr (List.mem_map_of_mem hmem))
      omega

theorem standing_ne_unknown_iff (h : c.Sound) : c.standing k ≠ .unknown ↔ k < c.next := by
  rw [Ne, standing_eq_unknown_iff h, Nat.not_le]

theorem result?_of_answered (h : c.Sound) (hs : c.standing k = .answered a) :
    c.result? k = some a :=
  (result?_eq_some_iff h).mpr ((standing_eq_answered_iff h).mp hs)

theorem result?_of_collecting (h : c.Sound) (hs : c.standing k = .collecting col) :
    c.result? k = none :=
  open_not_answered h ((standing_eq_collecting_iff h).mp hs)

theorem standing_congr {c' : Collector} (h : c.Sound) (h' : c'.Sound)
    (hnext : c.next ≤ k → c'.next ≤ k)
    (hanswers : ∀ a, (k, a) ∈ c.results → (k, a) ∈ c'.results)
    (hentries : ∀ col, ⟨k, col, false⟩ ∈ c.entries → ⟨k, col, false⟩ ∈ c'.entries) :
    c'.standing k = c.standing k := by
  cases hs : c.standing k with
  | unknown => exact (standing_eq_unknown_iff h').mpr (hnext ((standing_eq_unknown_iff h).mp hs))
  | answered a =>
    exact (standing_eq_answered_iff h').mpr (hanswers a ((standing_eq_answered_iff h).mp hs))
  | collecting col =>
    exact (standing_eq_collecting_iff h').mpr (hentries col ((standing_eq_collecting_iff h).mp hs))

/-! ## Answering entries -/

/-- An entry of the table when some are answered. -/
def mark (selected : CollectorEntry → Bool) (e : CollectorEntry) : CollectorEntry :=
  if selected e && !e.resolved then { e with resolved := true } else e

section Resolve

variable (timedOut : Bool) (selected : CollectorEntry → Bool)

theorem entries_resolveWhere :
    (c.resolveWhere timedOut selected).entries = c.entries.map (mark selected) := rfl

theorem handle_mark (e : CollectorEntry) : (mark selected e).handle = e.handle := by
  unfold mark
  split <;> rfl

theorem collection_mark (e : CollectorEntry) : (mark selected e).collection = e.collection := by
  unfold mark
  split <;> rfl

theorem handles_resolveWhere :
    (c.resolveWhere timedOut selected).entries.map (·.handle) = c.entries.map (·.handle) := by
  rw [entries_resolveWhere, List.map_map]
  exact List.map_congr_left fun e _ => handle_mark selected e

theorem ids_resolveWhere :
    (c.resolveWhere timedOut selected).entries.map (·.collection.requestId) =
      c.entries.map (·.collection.requestId) := by
  rw [entries_resolveWhere, List.map_map]
  exact List.map_congr_left fun e _ => congrArg _ (collection_mark selected e)

theorem answers_resolveWhere :
    (c.resolveWhere timedOut selected).results.map (·.1) =
      c.results.map (·.1) ++
        (c.entries.filter fun e => selected e && !e.resolved).map (·.handle) := by
  simp [resolveWhere, CollectorEntry.answer, Function.comp_def]

theorem mem_answers_resolveWhere (h : c.Sound) {e : CollectorEntry} (he : e ∈ c.entries) :
    e.handle ∈ (c.resolveWhere timedOut selected).results.map (·.1) ↔
      e.resolved = true ∨ selected e = true := by
  rw [answers_resolveWhere, List.mem_append, ← h.resolved e he]
  constructor
  · rintro (hres | hfresh)
    · exact .inl hres
    · obtain ⟨e', he', heq⟩ := List.mem_map.mp hfresh
      obtain ⟨hmem, hsel⟩ := List.mem_filter.mp he'
      obtain rfl := List.inj_on_of_nodup_map h.handles hmem he heq
      exact .inr (by simp_all)
  · intro hor
    by_cases hres : e.resolved = true
    · exact .inl hres
    · refine .inr (List.mem_map_of_mem (List.mem_filter.mpr ⟨he, ?_⟩))
      simp_all

theorem Sound.resolveWhere (h : c.Sound) : (c.resolveWhere timedOut selected).Sound where
  ids := by
    rw [ids_resolveWhere]
    exact h.ids
  handles := by
    rw [handles_resolveWhere]
    exact h.handles
  answers := by
    rw [answers_resolveWhere, List.nodup_append]
    refine ⟨h.answers, h.handles.sublist (List.filter_sublist.map _), ?_⟩
    rintro k hk k' hk' rfl
    obtain ⟨e, he, rfl⟩ := List.mem_map.mp hk'
    obtain ⟨hmem, hsel⟩ := List.mem_filter.mp he
    have hres := (h.resolved e hmem).mpr hk
    simp_all
  resolved := by
    intro e' he'
    rw [entries_resolveWhere] at he'
    obtain ⟨e, he, rfl⟩ := List.mem_map.mp he'
    rw [handle_mark, mem_answers_resolveWhere timedOut selected h he]
    unfold mark
    split <;> simp_all
  given := by
    intro k
    rw [handles_resolveWhere, answers_resolveWhere, List.mem_append, or_assoc]
    refine (h.given k).trans (or_congr_right ⟨.inr, ?_⟩)
    rintro (hfresh | hent)
    · exact (List.filter_sublist.map _).subset hfresh
    · exact hent

/-- Selected collections that wait are answered, all else stays as it is. -/
theorem standing_resolveWhere (h : c.Sound) (k : Nat) :
    (c.resolveWhere timedOut selected).standing k =
      (c.standing k).answerWhere timedOut fun col => selected ⟨k, col, false⟩ := by
  have h' := h.resolveWhere timedOut selected
  cases hs : c.standing k with
  | unknown => exact (standing_eq_unknown_iff h').mpr ((standing_eq_unknown_iff h).mp hs)
  | answered a =>
    have hmem := (standing_eq_answered_iff h).mp hs
    exact (standing_eq_answered_iff h').mpr (List.mem_append_left _ hmem)
  | collecting col =>
    have he := (standing_eq_collecting_iff h).mp hs
    rw [Standing.answerWhere]
    split
    · rename_i hsel
      refine (standing_eq_answered_iff h').mpr (List.mem_append_right _ ?_)
      exact List.mem_map_of_mem (List.mem_filter.mpr ⟨he, by simpa using hsel⟩)
    · rename_i hsel
      refine (standing_eq_collecting_iff h').mpr (List.mem_map.mpr ⟨_, he, ?_⟩)
      simp [hsel]

end Resolve

/-! ## Taking entries off, changing one, adding one -/

section Discard

variable {keep : CollectorEntry → Bool}

theorem Sound.discard (h : c.Sound) (hkeep : ∀ e ∈ c.entries, keep e = false → e.resolved = true) :
    Sound { c with entries := c.entries.filter keep } where
  ids := h.ids.sublist (List.filter_sublist.map _)
  handles := h.handles.sublist (List.filter_sublist.map _)
  answers := h.answers
  resolved := fun e he => h.resolved e (List.mem_of_mem_filter he)
  given := by
    intro k
    rw [h.given k]
    constructor
    · rintro (hans | hent)
      · exact .inl hans
      · obtain ⟨e, he, rfl⟩ := List.mem_map.mp hent
        by_cases hk : keep e = true
        · exact .inr (List.mem_map_of_mem (List.mem_filter.mpr ⟨he, hk⟩))
        · exact .inl ((h.resolved e he).mp (hkeep e he (by simpa using hk)))
    · rintro (hans | hent)
      · exact .inl hans
      · exact .inr ((List.filter_sublist.map _).subset hent)

/-- Entries that have their answer can be taken off unnoticed. -/
theorem standing_discard (h : c.Sound)
    (hkeep : ∀ e ∈ c.entries, keep e = false → e.resolved = true) (k : Nat) :
    standing { c with entries := c.entries.filter keep } k = c.standing k := by
  refine standing_congr h (h.discard hkeep) id (fun _ hmem => hmem) fun col he => ?_
  refine List.mem_filter.mpr ⟨he, ?_⟩
  by_contra hk
  have hres := hkeep _ he (by simpa using hk)
  cases hres

end Discard

section Put

variable {handle : Nat} {col' : Collection}

theorem put_eq (h : c.Sound) (he : ⟨handle, col, false⟩ ∈ c.entries) :
    ∀ e ∈ c.entries, e.handle = handle → e = ⟨handle, col, false⟩ :=
  fun _ hmem hh => List.inj_on_of_nodup_map h.handles hmem he hh

theorem handles_put (e : CollectorEntry) :
    (c.put e).entries.map (·.handle) = c.entries.map (·.handle) := by
  unfold put
  rw [List.map_map]
  refine List.map_congr_left fun e' _ => ?_
  simp only [Function.comp_apply, beq_iff_eq]
  split
  · exact Eq.symm (by assumption)
  · rfl

theorem Sound.put (h : c.Sound) (he : ⟨handle, col, false⟩ ∈ c.entries)
    (hid : col'.requestId = col.requestId) : (c.put ⟨handle, col', false⟩).Sound where
  ids := by
    have hids : (c.put ⟨handle, col', false⟩).entries.map (·.collection.requestId) =
        c.entries.map (·.collection.requestId) := by
      unfold Collector.put
      rw [List.map_map]
      refine List.map_congr_left fun e hmem => ?_
      by_cases hh : e.handle = handle
      · simp [put_eq h he e hmem hh, hid]
      · simp [hh]
    rw [hids]
    exact h.ids
  handles := by
    rw [handles_put]
    exact h.handles
  answers := h.answers
  resolved := by
    intro e' he'
    obtain ⟨e, hmem, rfl⟩ := List.mem_map.mp he'
    have hres : (c.put ⟨handle, col', false⟩).results = c.results := rfl
    rw [hres]
    by_cases hh : e.handle = handle
    · simpa [hh] using h.resolved _ he
    · simpa [hh] using h.resolved e hmem
  given := by
    intro k
    rw [handles_put]
    exact h.given k

theorem standing_put (h : c.Sound) (he : ⟨handle, col, false⟩ ∈ c.entries)
    (hid : col'.requestId = col.requestId) (k : Nat) :
    (c.put ⟨handle, col', false⟩).standing k =
      if k = handle then .collecting col' else c.standing k := by
  have h' := h.put he hid
  split
  · rename_i hk
    subst hk
    exact (standing_eq_collecting_iff h').mpr (List.mem_map.mpr ⟨_, he, by simp⟩)
  · rename_i hk
    refine standing_congr h h' id (fun _ hmem => hmem) fun col hmem => ?_
    exact List.mem_map.mpr ⟨_, hmem, by simp [hk]⟩

end Put

section Enroll

/-- Give the next handle to a collection. -/
def enroll (c : Collector) (col : Collection) : Collector :=
  { c with entries := c.entries ++ [⟨c.next, col, false⟩], next := c.next + 1 }

theorem Sound.next_not_answered (h : c.Sound) : c.next ∉ c.results.map (·.1) :=
  fun hmem => Nat.lt_irrefl _ ((h.given c.next).mpr (.inl hmem))

theorem Sound.next_not_entered (h : c.Sound) : c.next ∉ c.entries.map (·.handle) :=
  fun hmem => Nat.lt_irrefl _ ((h.given c.next).mpr (.inr hmem))

theorem Sound.enroll (h : c.Sound) (hid : ∀ e ∈ c.entries, e.collection.requestId ≠ col.requestId) :
    (c.enroll col).Sound where
  ids := by
    have hnot : col.requestId ∉ c.entries.map (·.collection.requestId) := by
      rintro hmem
      obtain ⟨e, he, heq⟩ := List.mem_map.mp hmem
      exact hid e he heq
    simpa [Collector.enroll] using h.ids.concat hnot
  handles := by
    simpa [Collector.enroll] using h.handles.concat h.next_not_entered
  answers := h.answers
  resolved := by
    intro e he
    rcases List.mem_append.mp he with he | he
    · exact h.resolved e he
    · obtain rfl := List.mem_singleton.mp he
      simpa [Collector.enroll] using h.next_not_answered
  given := by
    intro k
    have hk := h.given k
    simp only [Collector.enroll, List.map_append, List.mem_append, List.map_cons, List.map_nil,
      List.mem_singleton, ← or_assoc, ← hk]
    omega

theorem standing_enroll (h : c.Sound)
    (hid : ∀ e ∈ c.entries, e.collection.requestId ≠ col.requestId) (k : Nat) :
    (c.enroll col).standing k = if k = c.next then .collecting col else c.standing k := by
  have h' := h.enroll hid
  split
  · rename_i hk
    subst hk
    exact (standing_eq_collecting_iff h').mpr (List.mem_append_right _ (List.mem_singleton.mpr rfl))
  · rename_i hk
    refine standing_congr h h' (fun hle => ?_) (fun _ hmem => hmem) fun col hmem => ?_
    · have hlt : c.next < k := by omega
      exact hlt
    · exact List.mem_append_left _ hmem

end Enroll

end Collector

end Switchboard
