import Chronicle.Data.Table
import Mathlib.Data.List.Basic
import Mathlib.Data.List.Induction
import Mathlib.Data.Option.Basic

namespace Chronicle

/-!
# Lists without their repetitions

* `eraseDups_concat` — what stands at the end stays if it is new.
* `FirstsOf` — a list without its repetitions, said without the way to get there. `List.eraseDups`
  leaves just that (`firstsOf_eraseDups`).
* `Table.values_eq` — the values of a table stand in the order of its keys.
-/

section

variable {α : Type} [DecidableEq α]

theorem eraseDups_concat (all : List α) (a : α) :
    (all ++ [a]).eraseDups = if a ∈ all then all.eraseDups else all.eraseDups ++ [a] := by
  rw [List.eraseDups_append, List.removeAll]
  by_cases h : a ∈ all
  · simp [h]
  · simp [h, List.eraseDups_cons]

/-- A list has what is in another one, in the order in which it came there first. -/
structure FirstsOf (all l : List α) : Prop where
  /-- It has nothing else and leaves nothing out. -/
  mem : ∀ x, x ∈ l ↔ x ∈ all
  /-- What came earlier stands earlier. -/
  ordered : l.Pairwise fun a b => all.idxOf a < all.idxOf b

theorem firstsOf_eraseDups (all : List α) : FirstsOf all all.eraseDups := by
  refine ⟨fun _ => List.mem_eraseDups, ?_⟩
  induction all using List.reverseRecOn with
  | nil => exact .nil
  | append_singleton all a ih =>
    have hkept : ∀ x ∈ all.eraseDups, (all ++ [a]).idxOf x = all.idxOf x := fun x hx =>
      List.idxOf_append_of_mem (List.mem_eraseDups.1 hx)
    have hearlier : all.eraseDups.Pairwise fun x y =>
        (all ++ [a]).idxOf x < (all ++ [a]).idxOf y := by
      refine ih.imp_of_mem fun hx hy hlt => ?_
      rwa [hkept _ hx, hkept _ hy]
    rw [eraseDups_concat]
    split
    · exact hearlier
    · rename_i hnew
      refine List.pairwise_append.2 ⟨hearlier, List.pairwise_singleton _ _, fun x hx y hy => ?_⟩
      -- A new one comes behind all that were there.
      rw [List.mem_singleton.1 hy, hkept x hx, List.idxOf_append_of_notMem hnew]
      exact Nat.lt_add_right _ (List.idxOf_lt_length_of_mem (List.mem_eraseDups.1 hx))

end

/-- The values of a table stand in the order of its keys. -/
theorem Table.values_eq {κ α β : Type} [DecidableEq κ] {t : Table κ α} {l : List β} {key : β → κ}
    {value : β → α} (hkeys : t.keys = l.map key)
    (hvalue : ∀ x ∈ l, t.get? (key x) = some (value x)) : t.values = l.map value := by
  have hget : t.keys.map t.get? = t.values.map some := by
    rw [keys, values, List.map_map, List.map_map]
    exact List.map_congr_left fun e he => (get?_eq_some_iff _ _ _).2 he
  refine List.map_injective_iff.2 (Option.some_injective α) ?_
  rw [← hget, hkeys, List.map_map, List.map_map]
  exact List.map_congr_left hvalue

end Chronicle
