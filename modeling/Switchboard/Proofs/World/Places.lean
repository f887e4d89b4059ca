import Mathlib.Data.List.Perm.Basic
import Switchboard.Bus.Gate

/-!
# The places of a queue

* `Gate.Accounts` : each place is free, taken or kept, nobody stands in line while there is a free
  one, and the numbers in line are those of the work that has one;
* `Accounts.take`, `Accounts.line`, `Accounts.claim`, `Accounts.release` : so it stays;
* `Accounts.tickets_eq_nil` : nobody stands in line for a queue that is empty.
-/

namespace Switchboard.Gate

/-- Each place is free, taken or kept for somebody, nobody stands in line while there is a free one,
and the numbers in line are those of the work that has one, and were given out. -/
structure Accounts (g : Gate) (taken all : Nat) (tickets : List Nat) : Prop where
  sum : g.places + g.granted.length + taken = all
  full : g.waiting ≠ [] → g.places = 0
  line : (g.waiting ++ g.granted).Perm tickets
  fresh : ∀ k ∈ tickets, k < g.next

namespace Accounts

variable {g g' : Gate} {taken all k : Nat} {tickets tickets' : List Nat}

theorem perm (h : g.Accounts taken all tickets) (hp : tickets.Perm tickets') :
    g.Accounts taken all tickets' :=
  ⟨h.sum, h.full, h.line.trans hp, fun k hk => h.fresh k (hp.mem_iff.mpr hk)⟩

theorem take (h : g.Accounts taken all tickets) (htake : g.take? = some g') :
    g'.Accounts (taken + 1) all tickets := by
  unfold take? at htake
  split at htake
  · cases htake
  · rename_i hfree
    obtain rfl := Option.some.inj htake
    have hsum := h.sum
    refine ⟨?_, fun hwaiting => absurd (h.full hwaiting) hfree, h.line, h.fresh⟩
    dsimp only
    omega

theorem lineUp (h : g.Accounts taken all tickets) (htake : g.take? = none) :
    g.line.1.Accounts taken all (g.line.2 :: tickets) := by
  unfold take? at htake
  split at htake
  · rename_i hfull
    refine ⟨h.sum, fun _ => hfull, ?_, fun k hk => ?_⟩
    · change (g.waiting ++ [g.next] ++ g.granted).Perm (g.next :: tickets)
      rw [List.append_assoc]
      exact List.perm_middle.trans (h.line.cons _)
    · change k < g.next + 1
      rcases List.mem_cons.mp hk with rfl | hk
      · exact Nat.lt_succ_self _
      · exact Nat.lt_succ_of_lt (h.fresh k hk)
  · cases htake

theorem claim (h : g.Accounts taken all (k :: tickets)) (hclaim : g.claim? k = some g') :
    g'.Accounts (taken + 1) all tickets := by
  unfold claim? at hclaim
  split at hclaim
  · rename_i hgranted
    obtain rfl := Option.some.inj hclaim
    have hgranted : k ∈ g.granted := by simpa using hgranted
    have hlength := List.length_erase_of_mem hgranted
    have hpos := List.length_pos_of_mem hgranted
    have hsum := h.sum
    refine ⟨?_, h.full, ?_, fun k' hk' => h.fresh k' (List.mem_cons_of_mem _ hk')⟩
    · dsimp only
      omega
    · have hline : (k :: (g.waiting ++ g.granted.erase k)).Perm (k :: tickets) :=
        (List.perm_middle.symm.trans ((List.perm_cons_erase hgranted).symm.append_left _)).trans
          h.line
      exact hline.cons_inv
  · cases hclaim

theorem release (h : g.Accounts (taken + 1) all tickets) :
    g.release.1.Accounts taken all tickets := by
  have hsum := h.sum
  have hline := h.line
  unfold Gate.release
  cases hwaiting : g.waiting with
  | nil =>
    rw [hwaiting] at hline
    refine ⟨?_, fun hne => absurd rfl hne, hline, h.fresh⟩
    dsimp only
    omega
  | cons k rest =>
    have hfull : g.places = 0 := h.full (by simp [hwaiting])
    rw [hwaiting] at hline
    refine ⟨?_, fun _ => hfull, ?_, h.fresh⟩
    · dsimp only
      rw [List.length_append, List.length_singleton]
      omega
    · dsimp only
      rw [← List.append_assoc]
      exact (List.perm_append_singleton k _).trans hline

theorem next_not_granted (h : g.Accounts taken all tickets) : g.next ∉ g.granted := fun hmem =>
  Nat.lt_irrefl _ (h.fresh _ (h.line.subset (List.mem_append_right _ hmem)))

/-- Nobody stands in line for an empty queue once everybody took what was kept for him. -/
theorem tickets_eq_nil (h : g.Accounts 0 all tickets) (hall : 0 < all)
    (htaken : ∀ k ∈ tickets, k ∉ g.granted) : tickets = [] := by
  have hgranted : g.granted = [] := by
    refine List.eq_nil_iff_forall_not_mem.mpr fun k hk => htaken k (h.line.subset ?_) hk
    exact List.mem_append_right _ hk
  have hsum := h.sum
  rw [hgranted, List.length_nil] at hsum
  have hwaiting : g.waiting = [] :=
    Classical.byContradiction fun hne => by
      have := h.full hne
      omega
  have hline := h.line
  rw [hgranted, hwaiting] at hline
  exact hline.nil_eq.symm

end Accounts

end Switchboard.Gate
