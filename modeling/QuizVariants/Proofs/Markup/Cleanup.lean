import QuizVariants.Markup.Cleanup
import QuizVariants.Proofs.Text.Affixes

/-! Display text without markup.
Every rule of the cleanup looks for a backslash or an angle bracket, so that text without these is
left alone.
-/

namespace QuizVariants.Markup

open QuizVariants.Text

theorem replaceAll_of_none {rule : List Char → Option (List Char × List Char)} {c : Char}
    {rest : List Char} (h : rule (c :: rest) = none)
    : replaceAll rule (c :: rest) = c :: replaceAll rule rest := by
  rw [replaceAll, h]

theorem replaceAll_of_some {rule : List Char → Option (List Char × List Char)}
    {text output after : List Char} (h : rule text = some (output, after))
    (shorter : after.length < text.length)
    : replaceAll rule text = output ++ replaceAll rule after := by
  cases text with
  | nil => exact nomatch shorter
  | cons c rest =>
      have within : after.length ≤ rest.length := Nat.le_of_lt_succ shorter
      rw [replaceAll, h]
      exact if_pos within

/-- A rule that matches at no character of a text goes on behind it, by induction on the text. -/
theorem replaceAll_append_of_unmatched {rule : List Char → Option (List Char × List Char)}
    {text : List Char} (h : ∀ c ∈ text, ∀ rest, rule (c :: rest) = none) (behind : List Char)
    : replaceAll rule (text ++ behind) = text ++ replaceAll rule behind := by
  induction text with
  | nil => rfl
  | cons c text ih =>
      obtain ⟨first, others⟩ := List.forall_mem_cons.mp h
      rw [List.cons_append, replaceAll_of_none (first _), ih others, List.cons_append]

/-- A rule that matches at no character of a text leaves it alone. -/
theorem replaceAll_of_unmatched {rule : List Char → Option (List Char × List Char)}
    {text : List Char} (h : ∀ c ∈ text, ∀ rest, rule (c :: rest) = none)
    : replaceAll rule text = text := by
  have whole := replaceAll_append_of_unmatched h []
  rwa [List.append_nil, replaceAll, List.append_nil] at whole

/-- A rule matches only at a character that starts markup. -/
theorem rule_eq_none {rule : List Char → Option (List Char × List Char)} (h : rule ∈ rules)
    {c : Char} (slash : c ≠ '\\') (angle : c ≠ '<') (rest : List Char)
    : rule (c :: rest) = none := by
  have unopened {first : Char} (apart : c ≠ first) (pattern : List Char)
      : after? (first :: pattern) (c :: rest) = none := by
    refine after?_eq_none (fun starts => ?_) pattern
    exact apart (Option.some.inj starts)
  simp only [rules, List.mem_cons, List.not_mem_nil, or_false] at h
  rcases h with rfl | rfl | rfl | rfl | rfl
  · simp [bold, enclosed, unopened slash]
  · simp [italic, enclosed, unopened slash]
  · simp [underlined, enclosed, unopened slash]
  · simp [displayed, unopened slash]
  · simp [centred, enclosed, unopened angle]

/-- Rules that leave a text alone leave it alone one after the other, by induction on them. -/
theorem foldl_replaceAll_of_unchanged {text : List Char}
    {some : List (List Char → Option (List Char × List Char))}
    (h : ∀ rule ∈ some, replaceAll rule text = text)
    : some.foldl (fun text rule => replaceAll rule text) text = text := by
  induction some with
  | nil => rfl
  | cons rule some ih =>
      obtain ⟨first, others⟩ := List.forall_mem_cons.mp h
      rw [List.foldl_cons, first]
      exact ih others

/-- Text without backslashes and angle brackets has no markup. -/
theorem clean_of_plain {text : List Char} (slash : '\\' ∉ text) (angle : '<' ∉ text)
    : clean text = text := by
  refine foldl_replaceAll_of_unchanged (fun rule member => ?_)
  refine replaceAll_of_unmatched (fun c found rest => rule_eq_none member ?_ ?_ rest)
  · exact fun same => slash (same ▸ found)
  · exact fun same => angle (same ▸ found)

end QuizVariants.Markup
