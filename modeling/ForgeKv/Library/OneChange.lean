import Mathlib.Data.List.Basic

namespace ForgeKv.OneChange

variable {Item : Type u} {before after one two : List Item}

-- Two lists that differ in exactly one place.
def Changed (before after : List Item) : Prop :=
  ∃ front old new back, old ≠ new ∧ before = front ++ old::back ∧ after = front ++ new::back

theorem Changed.length (changed : Changed before after) : after.length = before.length := by
  obtain ⟨-,-,-,-,-,rfl,rfl⟩ := changed
  simp

theorem Changed.ne (changed : Changed before after) : before ≠ after := by
  obtain ⟨-,old,new,-,other,rfl,rfl⟩ := changed
  simp [other]

theorem not_changed_nil : ¬ Changed [] after := by
  rintro ⟨front,old,new,back,-,empty,-⟩
  cases front <;> cases empty

theorem Changed.behind (changed : Changed before after) (front : List Item) : Changed (front ++ before) (front ++ after) := by
  obtain ⟨start,old,new,back,other,rfl,rfl⟩ := changed
  exact ⟨front ++ start,old,new,back,other,by simp,by simp⟩

theorem Changed.append (changed : Changed (one ++ two) after) :
    (∃ first, Changed one first ∧ after = first ++ two) ∨ ∃ second, Changed two second ∧ after = one ++ second := by
  obtain ⟨front,old,new,back,other,whole,rfl⟩ := changed
  rcases List.append_eq_append_iff.mp whole with ⟨rest,rfl,behind⟩ | ⟨rest,rfl,ahead⟩
  · exact .inr ⟨rest ++ new::back,⟨rest,old,new,back,other,behind,rfl⟩,by simp⟩
  · cases rest with
    | nil => exact .inr ⟨new::back,⟨[],old,new,back,other,by simpa using ahead.symm,rfl⟩,by simp⟩
    | cons head rest =>
      cases ahead
      exact .inl ⟨front ++ new::rest,⟨front,old,new,rest,other,rfl,rfl⟩,by simp⟩

end ForgeKv.OneChange
