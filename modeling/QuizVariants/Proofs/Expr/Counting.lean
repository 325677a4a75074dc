import QuizVariants.Expr.Grammar
import QuizVariants.Proofs.Expr.Parsing

/-! What is counted while a text is read.
The depth of a text is counted character by character, without a parser. What a parser takes from a
text leads the count from one state to another; a phrase that closes its brackets leaves them as
they were and forgets no power.
-/

namespace QuizVariants.Expr

open QuizVariants.Decimal
open QuizVariants.Literal (isQuote opensBracket closesBracket)
open QuizVariants.Parser
open QuizVariants.Text

variable {α β : Type}

-----------------------------------------------------------------------------------------
-- Steps of the count
-----------------------------------------------------------------------------------------

/-- The count stands outside of strings. -/
structure Nesting.IsOutside (n : Nesting) : Prop where
  mark : n.mark = none
  escaped : n.escaped = false

theorem Nesting.isOutside_start : Nesting.start.IsOutside :=
  ⟨rfl, rfl⟩

theorem Nesting.deepest_le_step (n : Nesting) (c : Char) : n.deepest ≤ (n.step c).deepest := by
  unfold Nesting.step
  split
  · unfold Nesting.stepInside
    split
    · exact Nat.le_refl _
    · split
      · exact Nat.le_refl _
      · split <;> exact Nat.le_refl _
  · exact Nat.le_max_left _ _

/-- The depth only grows along a text, by induction on the text. -/
theorem Nesting.deepest_le_foldl (n : Nesting) (text : List Char)
    : n.deepest ≤ (text.foldl Nesting.step n).deepest := by
  induction text generalizing n with
  | nil => exact Nat.le_refl _
  | cons c text ih => exact Nat.le_trans (n.deepest_le_step c) (ih (n.step c))

theorem Nesting.IsOutside.step_eq {n : Nesting} (h : n.IsOutside) (c : Char)
    : n.step c = n.stepOutside c := by
  rw [Nesting.step, h.mark]

theorem Nesting.IsOutside.step {n : Nesting} (h : n.IsOutside) {c : Char}
    (apart : isQuote c = false)
    : (n.step c).IsOutside := by
  rw [h.step_eq]
  refine ⟨?_, h.escaped⟩
  simp [Nesting.stepOutside, apart]

/-- No bracket is left open or closed too often, and no power is forgotten. -/
structure Keeps (n m : Nesting) : Prop where
  brackets : m.brackets = n.brackets
  powers : n.powers ≤ m.powers

theorem Keeps.refl (n : Nesting) : Keeps n n :=
  ⟨rfl, Nat.le_refl _⟩

theorem Keeps.trans {n m l : Nesting} (first : Keeps n m) (second : Keeps m l) : Keeps n l :=
  ⟨second.brackets.trans first.brackets, Nat.le_trans first.powers second.powers⟩

/-- Characters that are neither brackets nor quotes. -/
def isMute (c : Char) : Bool :=
  !(opensBracket c || closesBracket c || isQuote c)

theorem not_isQuote_of_isMute {c : Char} (mute : isMute c = true) : isQuote c = false := by
  simp only [isMute, Bool.not_eq_true', Bool.or_eq_false_iff] at mute
  exact mute.2

/-- The depth covers what is counted at each character. -/
theorem Nesting.le_deepest_stepOutside (n : Nesting) (c : Char)
    : (n.stepOutside c).brackets + (n.stepOutside c).signs + (n.stepOutside c).powers
      ≤ (n.stepOutside c).deepest :=
  Nat.le_max_right _ _

theorem Nesting.powers_le_stepOutside (n : Nesting) (c : Char)
    : n.powers ≤ (n.stepOutside c).powers := by
  simp only [Nesting.stepOutside]
  split <;> omega

theorem keeps_step {n : Nesting} (h : n.IsOutside) {c : Char} (mute : isMute c = true)
    : Keeps n (n.step c) := by
  simp only [isMute, Bool.not_eq_true', Bool.or_eq_false_iff] at mute
  obtain ⟨⟨opens, closes⟩, _⟩ := mute
  rw [h.step_eq]
  refine ⟨?_, n.powers_le_stepOutside c⟩
  simp [Nesting.stepOutside, opens, closes]

/-- Mute characters keep the count, by induction on them. -/
theorem keeps_foldl {n : Nesting} (h : n.IsOutside) {taken : List Char}
    (mute : ∀ c ∈ taken, isMute c = true)
    : (taken.foldl Nesting.step n).IsOutside ∧ Keeps n (taken.foldl Nesting.step n) := by
  induction taken generalizing n with
  | nil => exact ⟨h, .refl n⟩
  | cons c taken ih =>
      obtain ⟨first, others⟩ := List.forall_mem_cons.mp mute
      obtain ⟨outside, keeps⟩ := ih (h.step (not_isQuote_of_isMute first)) others
      exact ⟨outside, (keeps_step h first).trans keeps⟩

-----------------------------------------------------------------------------------------
-- What a parser does to the count
-----------------------------------------------------------------------------------------

/-- What a parser takes from a text starts and ends outside of strings, and relates the counts
before and after it and the value that is read by `post`. -/
def Counts (p : Parser α) (post : Nesting → α → Nesting → Prop) : Prop :=
  ∀ text value rest, p text = .ok (value, rest) →
    ∃ taken, text = taken ++ rest ∧ ∀ n : Nesting, n.IsOutside →
      (taken.foldl Nesting.step n).IsOutside ∧ post n value (taken.foldl Nesting.step n)

variable {post other : Nesting → α → Nesting → Prop} {later : α → Nesting → β → Nesting → Prop}

theorem Counts.mono {p : Parser α} (h : Counts p post)
    (weaker : ∀ n value m, n.deepest ≤ m.deepest → post n value m → other n value m)
    : Counts p other := by
  intro text value rest read
  obtain ⟨taken, split, counted⟩ := h text value rest read
  refine ⟨taken, split, fun n outside => ?_⟩
  obtain ⟨ends, fact⟩ := counted n outside
  exact ⟨ends, weaker _ _ _ (n.deepest_le_foldl taken) fact⟩

theorem Counts.fail : Counts (fail : Parser α) post := by
  intro text value rest read
  cases read

theorem Counts.pure {value : α} (h : ∀ n, post n value n) : Counts (pure value) post := by
  intro text other rest read
  obtain ⟨rfl, rfl⟩ := Prod.mk.inj (Except.ok.inj read)
  exact ⟨[], rfl, fun n outside => ⟨outside, h n⟩⟩

theorem Counts.pure_eq (value : α)
    : Counts (Pure.pure value) (fun n result m => value = result ∧ n = m) :=
  .pure fun _ => ⟨rfl, rfl⟩

/-- The counts of two parsers meet at what the first one leaves. -/
theorem Counts.bind {first : Parser α} {next : α → Parser β} (left : Counts first post)
    (right : ∀ value, Counts (next value) (later value))
    : Counts (first >>= next) (fun n result l =>
        ∃ value m, post n value m ∧ m.deepest ≤ l.deepest ∧ later value m result l) := by
  intro text result rest read
  obtain ⟨value, after, start, behind⟩ := exists_of_bind read
  obtain ⟨taken, rfl, counted⟩ := left text value after start
  obtain ⟨more, rfl, continued⟩ := right value after result rest behind
  refine ⟨taken ++ more, (List.append_assoc _ _ _).symm, fun n outside => ?_⟩
  obtain ⟨between, fact⟩ := counted n outside
  obtain ⟨ends, next⟩ := continued _ between
  rw [List.foldl_append]
  exact ⟨ends, value, _, fact, Nesting.deepest_le_foldl _ more, next⟩

theorem Counts.orElse {first second : Parser α} (left : Counts first post)
    (right : Counts second post)
    : Counts (orElse first second) post := by
  intro text value rest read
  exact (reads_of_orElse read).elim (left text value rest) (right text value rest)

theorem Counts.choice {parsers : List (Parser α)} {last : Parser α}
    (all : ∀ p ∈ parsers, Counts p post) (final : Counts last post)
    : Counts (choice parsers last) post :=
  choice_of_orElse Counts.orElse all final

-----------------------------------------------------------------------------------------
-- Phrases that close their brackets
-----------------------------------------------------------------------------------------

/-- A parser that keeps the count, whatever it reads. -/
abbrev KeepsCount (p : Parser α) : Prop :=
  Counts p (fun n _ m => Keeps n m)

/-- A count is kept, and the value is `good` for every room that the brackets and powers before it
leave to the depth of the text. -/
def Within (good : Nat → α → Prop) (n : Nesting) (value : α) (m : Nesting) : Prop :=
  Keeps n m ∧ ∀ room, m.deepest ≤ n.brackets + n.powers + room → good room value

variable {good fit : Nat → α → Prop} {fine : Nat → β → Prop}

/-- A value that is good behind what keeps the count is good in front of it, too. -/
theorem Within.behind {n m l : Nesting} {value : α} (keeps : Keeps n m)
    (h : Within good m value l)
    : Within good n value l := by
  obtain ⟨kept, fits⟩ := h
  refine ⟨keeps.trans kept, fun room deep => fits room ?_⟩
  obtain ⟨brackets, powers⟩ := keeps
  omega

theorem Counts.within_pure {value : α} (h : ∀ room, good room value)
    : Counts (Pure.pure value) (Within good) :=
  .pure fun n => ⟨.refl n, fun room _ => h room⟩

/-- The second of two phrases may rely on what the first one gave. -/
theorem Counts.within_bind {first : Parser α} {next : α → Parser β}
    (left : Counts first (Within good))
    (right : ∀ value, Counts (next value) (Within fun room result =>
      good room value → fine room result))
    : Counts (first >>= next) (Within fine) := by
  refine (left.bind right).mono ?_
  rintro n result l - ⟨value, m, ⟨keeps, fits⟩, deeper, behind⟩
  obtain ⟨kept, result⟩ := behind.behind keeps
  exact ⟨kept, fun room deep => result room deep (fits room (Nat.le_trans deeper deep))⟩

/-- What a first phrase gives does not matter where its value is dropped. -/
theorem Counts.within_after {first : Parser α} {next : α → Parser β}
    (left : KeepsCount first)
    (right : ∀ value, Counts (next value) (Within fine))
    : Counts (first >>= next) (Within fine) := by
  refine (left.bind right).mono ?_
  rintro n result l - ⟨value, m, keeps, -, behind⟩
  exact behind.behind keeps

theorem Counts.keeps {p : Parser α} (h : Counts p (Within good))
    : KeepsCount p :=
  h.mono fun _ _ _ _ within => within.1

theorem KeepsCount.within {p : Parser α} (h : KeepsCount p) : Counts p (Within fun _ _ => True) :=
  h.mono fun _ _ _ _ keeps => ⟨keeps, fun _ _ => trivial⟩

theorem Counts.optional {p : Parser α} (h : Counts p (Within good))
    : Counts (optional p) (Within fun room found => ∀ value, found = some value → good room value)
    := by
  intro text found rest read
  rcases reads_of_optional read with ⟨value, rfl, start⟩ | ⟨rfl, rfl⟩
  · obtain ⟨taken, split, counted⟩ := h text value rest start
    refine ⟨taken, split, fun n outside => ?_⟩
    obtain ⟨ends, keeps, fits⟩ := counted n outside
    refine ⟨ends, keeps, fun room deep other same => ?_⟩
    exact Option.some.inj same ▸ fits room deep
  · exact ⟨[], rfl, fun n outside => ⟨outside, .refl n, fun _ _ _ same => nomatch same⟩⟩

theorem KeepsCount.bind {first : Parser α} {next : α → Parser β} (left : KeepsCount first)
    (right : ∀ value, KeepsCount (next value))
    : KeepsCount (first >>= next) :=
  Counts.keeps (left.within_after fun value => (right value).within)

theorem KeepsCount.pure (value : α) : KeepsCount (Pure.pure value) :=
  Counts.pure fun n => .refl n

theorem KeepsCount.optional {p : Parser α} (h : KeepsCount p) : KeepsCount (Parser.optional p) :=
  h.within.optional.keeps

/-- Values are read one by one up to a rest, each of them good. -/
def TakesAll (good : Nat → α → Prop) (text : List Char) (values : List α) (rest : List Char)
    : Prop :=
  ∃ taken, text = taken ++ rest ∧ ∀ n : Nesting, n.IsOutside →
    (taken.foldl Nesting.step n).IsOutside
      ∧ Within (fun room values => ∀ value ∈ values, good room value) n values
        (taken.foldl Nesting.step n)

theorem TakesAll.nil (text : List Char) : TakesAll good text [] text :=
  ⟨[], rfl, fun n outside => ⟨outside, .refl n, fun _ _ => List.forall_mem_nil _⟩⟩

/-- A first value may stand in front of others. -/
theorem TakesAll.cons {p : Parser α} (h : Counts p (Within good)) {text after rest : List Char}
    {value : α} {values : List α} (start : p text = .ok (value, after))
    (others : TakesAll good after values rest)
    : TakesAll good text (value :: values) rest := by
  obtain ⟨taken, rfl, counted⟩ := h text value after start
  obtain ⟨more, rfl, continued⟩ := others
  refine ⟨taken ++ more, (List.append_assoc _ _ _).symm, fun n outside => ?_⟩
  obtain ⟨between, keeps, fits⟩ := counted n outside
  obtain ⟨ends, behind⟩ := continued _ between
  obtain ⟨kept, others⟩ := behind.behind keeps
  rw [List.foldl_append]
  refine ⟨ends, kept, fun room deep => List.forall_mem_cons.mpr ⟨?_, others room deep⟩⟩
  exact fits room (Nat.le_trans (Nesting.deepest_le_foldl _ more) deep)

/-- Repeated values are good one by one, by induction on the text that is left. -/
theorem takesAll_manyFrom {p : Parser α} (h : Counts p (Within good)) (text : List Char)
    : TakesAll good text (manyFrom p text).1 (manyFrom p text).2 := by
  induction text using manyFrom.induct p with
  | case1 text stopped start =>
      rw [manyFrom_of_error start]
      exact .nil text
  | case2 text value rest start shorter _ _ _ ih =>
      rw [manyFrom_of_ok start shorter]
      exact .cons h start ih
  | case3 text value rest start same =>
      rw [manyFrom_of_not_lt start same]
      exact .nil text

theorem Counts.many {p : Parser α} (h : Counts p (Within good))
    : Counts (many p) (Within fun room values => ∀ value ∈ values, good room value) := by
  intro text values rest read
  obtain ⟨rfl, rfl⟩ := Prod.mk.inj (Except.ok.inj read)
  exact takesAll_manyFrom h text

-----------------------------------------------------------------------------------------
-- Characters that are taken
-----------------------------------------------------------------------------------------

/-- A text of which only mute characters are taken away. -/
def LeavesMute (text rest : List Char) : Prop :=
  ∃ taken, text = taken ++ rest ∧ ∀ c ∈ taken, isMute c = true

theorem LeavesMute.refl (text : List Char) : LeavesMute text text :=
  ⟨[], rfl, List.forall_mem_nil _⟩

theorem LeavesMute.trans {text between rest : List Char} (first : LeavesMute text between)
    (second : LeavesMute between rest)
    : LeavesMute text rest := by
  obtain ⟨taken, rfl, mute⟩ := first
  obtain ⟨more, rfl, others⟩ := second
  exact ⟨taken ++ more, (List.append_assoc ..).symm, List.forall_mem_append.mpr ⟨mute, others⟩⟩

theorem LeavesMute.cons {c : Char} (mute : isMute c = true) (rest : List Char)
    : LeavesMute (c :: rest) rest :=
  ⟨[c], rfl, List.forall_mem_singleton.mpr mute⟩

theorem leavesMute_dropWhile {kind : Char → Bool} (mute : ∀ c, kind c = true → isMute c = true)
    (text : List Char)
    : LeavesMute text (text.dropWhile kind) :=
  ⟨text.takeWhile kind, List.takeWhile_append_dropWhile.symm,
    fun c member => mute c (List.mem_takeWhile_imp member)⟩

/-- A parser that takes mute characters keeps the count. -/
theorem Counts.mute {p : Parser α}
    (h : ∀ text value rest, p text = .ok (value, rest) → LeavesMute text rest)
    : KeepsCount p := by
  intro text value rest read
  obtain ⟨taken, split, mute⟩ := h text value rest read
  exact ⟨taken, split, fun n outside => keeps_foldl outside mute⟩

end QuizVariants.Expr
