/-!
# Texts that end early

Some texts are handed on as texts that end at the first NUL character; what stands behind it is
lost.
-/

namespace Lifecycle.Text

/-- The part of a text in front of its first NUL character. -/
def untilNul (text : String) : String := String.ofList (text.toList.takeWhile (· != '\x00'))

private theorem takeWhile_ne_eq_self {c : Char} {chars : List Char} (clean : c ∉ chars) :
    chars.takeWhile (· != c) = chars := by
  induction chars with
  | nil => rfl
  | cons head rest ih =>
      have differ : head ≠ c := fun equal => clean (equal ▸ List.mem_cons_self)
      have restClean := ih fun later => clean (List.mem_cons_of_mem _ later)
      simp [differ, restClean]

/-- A text without NUL is handed on as it is. -/
theorem untilNul_eq_self {text : String} (clean : '\x00' ∉ text.toList) :
    untilNul text = text := by
  rw [untilNul, takeWhile_ne_eq_self clean, String.ofList_toList]

end Lifecycle.Text
