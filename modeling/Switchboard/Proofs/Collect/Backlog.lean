import Switchboard.Proofs.Collect.Operations

/-!
# The backlog of the table

* `Collector.backlog` : how many collections wait for their answer;
* `Collector.pays_sweep`, `pays_wait`, `pays_receive`, `pays_enlist` : every answer that is put aside
  takes one collection off the backlog, to which only registering adds one.
-/

namespace Switchboard.Collector

/-- How many collections wait for their answer. -/
def backlog (c : Collector) : Nat := c.entries.countP (!·.resolved)

/-- At most so many collections came to the table that are neither answered nor in the backlog. -/
def Pays (more : Nat) (c c' : Collector) : Prop :=
  c'.backlog + c'.results.length ≤ c.backlog + c.results.length + more

variable {c c' c'' : Collector}

theorem Pays.refl (c : Collector) : Pays 0 c c := Nat.le_refl _

theorem Pays.trans {m n : Nat} (h : Pays m c c') (h' : Pays n c' c'') : Pays (m + n) c c'' := by
  unfold Pays at *
  omega

theorem resolved_mark (selected : CollectorEntry → Bool) (e : CollectorEntry) :
    (mark selected e).resolved = (e.resolved || selected e) := by
  unfold mark
  cases hselected : selected e <;> cases hresolved : e.resolved <;> simp [hresolved]

theorem pays_resolveWhere (timedOut : Bool) (selected : CollectorEntry → Bool) :
    Pays 0 c (c.resolveWhere timedOut selected) := by
  have hentries : ∀ entries : List CollectorEntry,
      (entries.map (mark selected)).countP (!·.resolved) +
        (entries.filter fun e => selected e && !e.resolved).length =
          entries.countP (!·.resolved) := by
    intro entries
    induction entries with
    | nil => rfl
    | cons e entries ih =>
      rw [List.map_cons, List.countP_cons, List.countP_cons, List.filter_cons, resolved_mark]
      cases selected e <;> cases e.resolved <;>
        simp only [Bool.not_true, Bool.not_false, Bool.or_true, Bool.or_false, Bool.and_true,
          Bool.and_false, Bool.false_eq_true, if_true, if_false, List.length_cons] <;>
        omega
  have hsum := hentries c.entries
  unfold Pays backlog
  rw [entries_resolveWhere, resolveWhere]
  dsimp only
  rw [List.length_append, List.length_map]
  omega

/-- Collections that are dropped do not wait any longer. -/
theorem pays_filter (keep : CollectorEntry → Bool) :
    Pays 0 c { c with entries := c.entries.filter keep } := by
  have hle : (c.entries.filter keep).countP (!·.resolved) ≤ c.entries.countP (!·.resolved) :=
    List.Sublist.countP_le List.filter_sublist
  unfold Pays backlog
  dsimp only
  omega

theorem pays_sweep (now : Nat) : Pays 0 c (c.sweep now).1 :=
  (pays_resolveWhere true _).trans (pays_filter _)

theorem pays_wait {now : Nat} {p : Pending} {a : Collected} (h : c.wait now p = some (c', a)) :
    Pays 0 c c' := by
  unfold wait at h
  split at h
  · cases h
    exact .refl c
  · split at h
    · cases h
      exact .refl c
    · split at h
      · cases h
        exact pays_resolveWhere true _
      · cases h

theorem pays_enlist (now : Nat) (q : Query) : Pays 1 c (c.enlist now q).1 := by
  have hvacated : Pays 0 c (c.vacate q.requestId) :=
    (pays_resolveWhere true _).trans (pays_filter _)
  have henrolled : Pays 1 c ((c.vacate q.requestId).enroll (q.start now)) := by
    unfold Pays backlog at hvacated ⊢
    change ((c.vacate q.requestId).entries ++ [_]).countP _ + (c.vacate q.requestId).results.length ≤ _
    rw [List.countP_append]
    simp only [List.countP_cons, List.countP_nil, Bool.not_false, if_true]
    omega
  rw [enlist_eq]
  split
  · exact henrolled.trans (pays_resolveWhere false _)
  · exact henrolled

theorem pays_put (h : c.Sound) {k : Nat} {col col' : Collection}
    (he : ⟨k, col, false⟩ ∈ c.entries) : Pays 0 c (c.put ⟨k, col', false⟩) := by
  have hsame : (c.put ⟨k, col', false⟩).entries.countP (!·.resolved) =
      c.entries.countP (!·.resolved) := by
    unfold put
    rw [List.countP_map]
    refine List.countP_congr fun e hmem => ?_
    by_cases hk : e.handle = k
    · simp [put_eq h he e hmem hk]
    · simp [hk]
  unfold Pays backlog
  rw [hsame]
  exact Nat.le_refl _

theorem pays_receive (h : c.Sound) (requestId : String) (r : Reply) :
    Pays 0 c (c.receive requestId r).1 := by
  rcases get?_cases h requestId with ⟨k, col, hs, -, hget⟩ | ⟨-, hget⟩
  · have hput : Pays 0 c (c.put ⟨k, col.receive r, false⟩) :=
      pays_put h ((standing_eq_collecting_iff h).mp hs)
    rw [receive_taken hget]
    dsimp only
    split
    · exact hput.trans (pays_resolveWhere false _)
    · exact hput
  · rw [receive_refused hget]
    exact .refl c

end Switchboard.Collector
