import CausalTrace.Table
import CausalTrace.Trace.Id
import Mathlib.Data.String.Basic
import Mathlib.Order.Defs.Unbundled

/-!
# Tables

What is found in a table after an entry was changed or taken out, and how its keys stand.
Insertion keeps the keys strictly ascending, and puts an entry whose key lies behind all others at
the end.  So a table that is filled from the entries of another one, in their order, is that table
again.

## Main statements

* `Table.get?_modify`, `Table.get?_erase` — what is found after a change
* `Table.Sorted.insert` — insertion keeps keys in order
* `Table.foldl_insert` — filling a table from a table in order
* `Table.insert_insert` — of two insertions under one key the second stands

## Design notes

Keys only have to be strictly and totally ordered; texts are, and trace ids are as their texts.
-/

namespace CausalTrace

/-- Trace ids are in the order of their texts. -/
instance : IsStrictTotalOrder TraceId (· < ·) where
  trichotomous a b hab hba :=
    congrArg TraceId.mk (Std.Trichotomous.trichotomous (r := (· < ·)) a.text b.text hab hba)
  irrefl a := String.lt_irrefl a.text
  trans _ _ _ hab hbc := String.lt_trans hab hbc

namespace Table

/-! ### What is found after a change -/

section

variable {κ α : Type} [DecidableEq κ]

/-- A change concerns what is held under its key only. -/
theorem get?_modify (t : Table κ α) (k j : κ) (f : α → α) :
    (t.modify k f).get? j = (t.get? j).map fun v => if k = j then f v else v := by
  induction t with
  | nil => rfl
  | cons e rest ih =>
      obtain ⟨k', v⟩ := e
      simp only [modify, List.map_cons] at ih ⊢
      by_cases hj : k' = j
      · subst hj
        by_cases hk : k' = k
        · simp [get?, hk]
        · simp [get?, hk, Ne.symm hk]
      · by_cases hk : k' = k
        · subst hk
          simpa [get?, hj] using ih
        · simpa [get?, hj, hk] using ih

/-- What is held under a key is gone once it is erased, and nothing else is. -/
theorem get?_erase (t : Table κ α) (k j : κ) :
    (t.erase k).get? j = if k = j then none else t.get? j := by
  induction t with
  | nil => simp [erase]
  | cons e rest ih =>
      obtain ⟨k', v⟩ := e
      unfold erase at ih ⊢
      by_cases hk : k' = k
      · subst hk
        rw [List.filter_cons_of_neg (by simp), ih]
        by_cases hj : k' = j <;> simp [get?, hj]
      · rw [List.filter_cons_of_pos (by simpa using hk), get?, get?, ih]
        by_cases hj : k' = j
        · subst hj
          simp [Ne.symm hk]
        · simp [hj]

end

/-! ### The order of keys -/

variable {κ α : Type} [LT κ] [DecidableLT κ] [DecidableEq κ] {t u : Table κ α} {k : κ} {v : α}

theorem mem_insert {e : κ × α} (h : e ∈ t.insert k v) : e = (k, v) ∨ e ∈ t := by
  induction t with
  | nil => exact .inl (List.mem_singleton.mp h)
  | cons head rest ih =>
      simp only [insert] at h
      split at h
      · exact List.mem_cons.mp h
      · split at h
        · exact (List.mem_cons.mp h).imp_right (List.mem_cons_of_mem _)
        · rcases List.mem_cons.mp h with rfl | h
          · exact .inr List.mem_cons_self
          · exact (ih h).imp_right (List.mem_cons_of_mem _)

variable [IsStrictTotalOrder κ (· < ·)]

/-- Insertion keeps keys in order. -/
theorem Sorted.insert (h : t.Sorted) (k : κ) (v : α) : (t.insert k v).Sorted := by
  induction t with
  | nil => exact List.pairwise_singleton _ _
  | cons head rest ih =>
      obtain ⟨hhead, hrest⟩ := List.pairwise_cons.mp h
      simp only [Table.insert]
      split
      next hlt =>
        refine List.pairwise_cons.mpr ⟨fun e he => ?_, h⟩
        rcases List.mem_cons.mp he with rfl | he
        · exact hlt
        · exact IsTrans.trans _ _ _ hlt (hhead e he)
      next hnotlt =>
        split
        next heq =>
          subst heq
          exact List.pairwise_cons.mpr ⟨hhead, hrest⟩
        next hne =>
          refine List.pairwise_cons.mpr ⟨fun e he => ?_, ih hrest⟩
          rcases mem_insert he with rfl | he
          · by_contra hnot
            exact hne (Std.Trichotomous.trichotomous (r := (· < ·)) _ _ hnot hnotlt)
          · exact hhead e he

/-- Of two insertions under one key the second stands. -/
theorem insert_insert (t : Table κ α) (k : κ) (v w : α) :
    (t.insert k v).insert k w = t.insert k w := by
  have hirrefl : ¬ k < k := Std.Irrefl.irrefl k
  induction t with
  | nil => simp [insert, hirrefl]
  | cons head rest ih =>
      simp only [insert]
      split
      · simp [insert, hirrefl]
      · split
        · simp [insert, hirrefl]
        · simp only [insert, *, if_false]

/-- An entry whose key lies behind all others comes to stand at the end. -/
theorem insert_of_forall_lt (h : ∀ e ∈ t, e.1 < k) : t.insert k v = t ++ [(k, v)] := by
  induction t with
  | nil => rfl
  | cons head rest ih =>
      have hlt : head.1 < k := h head List.mem_cons_self
      have hnot : ¬k < head.1 := fun hgt => Std.Irrefl.irrefl _ (IsTrans.trans _ _ _ hlt hgt)
      have hne : head.1 ≠ k := fun heq => Std.Irrefl.irrefl (r := (· < ·)) k (heq ▸ hlt)
      rw [insert, if_neg hnot, if_neg hne, ih fun e he => h e (List.mem_cons_of_mem _ he)]
      rfl

/-- A table that is filled with the entries of a table in order, all of them behind those it has,
holds them at its end. -/
theorem foldl_insert (hu : u.Sorted) (h : ∀ e ∈ t, ∀ e' ∈ u, e.1 < e'.1) :
    u.foldl (fun t e => t.insert e.1 e.2) t = t ++ u := by
  induction u generalizing t with
  | nil => simp
  | cons e rest ih =>
      obtain ⟨hhead, hrest⟩ := List.pairwise_cons.mp hu
      have hlast : ∀ e' ∈ t, e'.1 < e.1 := fun e' he' => h e' he' e List.mem_cons_self
      rw [List.foldl_cons, insert_of_forall_lt hlast, ih hrest]
      · simp
      · intro e' he' e'' he''
        rcases List.mem_append.mp he' with he' | he'
        · exact h e' he' e'' (List.mem_cons_of_mem _ he'')
        · rw [List.mem_singleton.mp he']
          exact hhead e'' he''

end Table

end CausalTrace
