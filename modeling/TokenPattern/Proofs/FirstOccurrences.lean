import Mathlib.Data.List.Induction
import Mathlib.Data.List.Nodup

namespace List

variable {α : Type*} [BEq α] [LawfulBEq α] {values : List α}

theorem eraseDups_concat (values : List α) (value : α) :
    (values ++ [value]).eraseDups =
      if value ∈ values then values.eraseDups else values.eraseDups ++ [value] := by
  rw [eraseDups_append]
  by_cases known : value ∈ values <;> simp [removeAll, known, eraseDups_cons]

theorem nodup_eraseDups (values : List α) : values.eraseDups.Nodup := by
  induction values using reverseRecOn with
  | nil => exact nodup_nil
  | append_singleton values value earlier =>
      rw [eraseDups_concat]
      by_cases known : value ∈ values
      · rwa [if_pos known]
      · rw [if_neg known]
        have fresh : value ∉ values.eraseDups := mt mem_eraseDups.mp known
        exact nodup_append_comm.mp (nodup_cons.mpr ⟨fresh, earlier⟩)

theorem eraseDups_of_nodup (distinct : values.Nodup) : values.eraseDups = values := by
  induction values using reverseRecOn with
  | nil => rfl
  | append_singleton values value earlier =>
      obtain ⟨front, -, apart⟩ := nodup_append.mp distinct
      have fresh : value ∉ values := fun known => apart value known value mem_cons_self rfl
      rw [eraseDups_concat, if_neg fresh, earlier front]

theorem eraseDups_filter (keep : α → Bool) (values : List α) :
    (values.filter keep).eraseDups = values.eraseDups.filter keep := by
  induction values using reverseRecOn with
  | nil => rfl
  | append_singleton values value earlier =>
      rw [eraseDups_concat, filter_append]
      cases kept : keep value with
      | false => by_cases known : value ∈ values <;> simp [known, kept, earlier]
      | true =>
          rw [filter_singleton, kept, cond_true, eraseDups_concat]
          by_cases known : value ∈ values <;> simp [known, kept, earlier]

end List
