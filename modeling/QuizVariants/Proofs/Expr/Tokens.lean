import QuizVariants.Proofs.Expr.Counting
import QuizVariants.Proofs.Text.Bare

/-! What tokens do to the count.
Spaces, words and symbols keep the count, a sign lengthens the run of signs, the mark of a power is
counted for good, and what stands in brackets is read with room for one less.
-/

namespace QuizVariants.Expr

open QuizVariants.Decimal
open QuizVariants.Literal (isQuote opensBracket closesBracket)
open QuizVariants.Parser
open QuizVariants.Text

variable {α β : Type} {post : Nesting → α → Nesting → Prop} {good fit : Nat → α → Prop}
  {fine : Nat → β → Prop}

-----------------------------------------------------------------------------------------
-- Spaces and marks
-----------------------------------------------------------------------------------------

/-- Nothing that counts has changed. -/
structure Stays (n m : Nesting) : Prop where
  brackets : m.brackets = n.brackets
  signs : m.signs = n.signs
  powers : m.powers = n.powers

theorem Stays.refl (n : Nesting) : Stays n n :=
  ⟨rfl, rfl, rfl⟩

theorem Stays.trans {n m l : Nesting} (first : Stays n m) (second : Stays m l) : Stays n l :=
  ⟨second.brackets.trans first.brackets, second.signs.trans first.signs,
    second.powers.trans first.powers⟩

theorem Stays.keeps {n m : Nesting} (h : Stays n m) : Keeps n m :=
  ⟨h.brackets, h.powers.ge⟩

theorem stays_step {n : Nesting} (h : n.IsOutside) {c : Char} (space : isSpace c = true)
    : Stays n (n.step c) := by
  rw [h.step_eq]
  simp only [isSpace, Bool.or_eq_true, beq_iff_eq] at space
  rcases space with ((rfl | rfl) | rfl) | rfl <;> exact ⟨rfl, rfl, rfl⟩

theorem isMute_of_isSpace {c : Char} (space : isSpace c = true) : isMute c = true := by
  simp only [isSpace, Bool.or_eq_true, beq_iff_eq] at space
  rcases space with ((rfl | rfl) | rfl) | rfl <;> rfl

/-- Spaces change nothing that counts, by induction on them. -/
theorem stays_foldl {n : Nesting} (h : n.IsOutside) {gap : List Char} (empty : IsGap gap)
    : (gap.foldl Nesting.step n).IsOutside ∧ Stays n (gap.foldl Nesting.step n) := by
  induction gap generalizing n with
  | nil => exact ⟨h, .refl n⟩
  | cons c gap ih =>
      obtain ⟨space, others⟩ := List.forall_mem_cons.mp empty
      have apart := not_isQuote_of_isMute (isMute_of_isSpace space)
      obtain ⟨outside, stays⟩ := ih (h.step apart) others
      exact ⟨outside, (stays_step h space).trans stays⟩

theorem counts_spaces : Counts spaces (fun n _ m => Stays n m) := by
  intro text value rest read
  obtain ⟨-, rfl⟩ := Prod.mk.inj (Except.ok.inj read)
  refine ⟨text.takeWhile isSpace, List.takeWhile_append_dropWhile.symm, fun n outside => ?_⟩
  exact stays_foldl outside (fun c member => List.mem_takeWhile_imp member)

theorem keeps_spaces : KeepsCount spaces :=
  counts_spaces.mono fun _ _ _ _ stays => stays.keeps

/-- Spaces on both sides change nothing that counts. -/
theorem Counts.token {p : Parser α} (h : Counts p post)
    : Counts (token p) (fun n value l =>
        ∃ start stop, Stays n start ∧ post start value stop ∧ stop.deepest ≤ l.deepest
          ∧ Stays stop l) := by
  refine (counts_spaces.bind fun _ => h.bind fun value => counts_spaces.bind fun _ =>
    .pure_eq value).mono ?_
  rintro n value l - ⟨-, start, before, -, _, stop, fact, deeper, -, _, after, -, rfl, rfl⟩
  exact ⟨start, stop, before, fact, deeper, after⟩

theorem KeepsCount.token {p : Parser α} (h : KeepsCount p) : KeepsCount (Parser.token p) := by
  refine (Counts.token h).mono ?_
  rintro n value l - ⟨start, stop, before, keeps, -, after⟩
  exact (before.keeps.trans keeps).trans after.keeps

theorem Counts.within_token {p : Parser α} (h : Counts p (Within good))
    : Counts (Parser.token p) (Within good) := by
  refine h.token.mono ?_
  rintro n value l - ⟨start, stop, before, within, deeper, after⟩
  obtain ⟨keeps, fits⟩ := within.behind before.keeps
  exact ⟨keeps.trans after.keeps, fun room deep => fits room (Nat.le_trans deeper deep)⟩

/-- A text that is read character by character steps the count along. -/
theorem counts_exactText {pattern : List Char} (apart : ∀ c ∈ pattern, isQuote c = false)
    : Counts (exactText pattern) (fun n _ m => n.IsOutside ∧ m = pattern.foldl Nesting.step n) := by
  intro text value rest read
  unfold exactText at read
  split at read
  · next found =>
    obtain ⟨-, rfl⟩ := Prod.mk.inj (Except.ok.inj read)
    refine ⟨pattern, after?_eq_some_iff.mp found, fun n outside => ⟨?_, outside, rfl⟩⟩
    clear found read
    induction pattern generalizing n with
    | nil => exact outside
    | cons c pattern ih =>
        obtain ⟨first, others⟩ := List.forall_mem_cons.mp apart
        exact ih others (n.step c) (outside.step first)
  · exact nomatch read

theorem counts_symbol {pattern : String} (apart : ∀ c ∈ pattern.toList, isQuote c = false)
    : Counts (symbol pattern) (fun n _ l =>
        ∃ start stop, Stays n start
          ∧ (start.IsOutside ∧ stop = pattern.toList.foldl Nesting.step start)
          ∧ stop.deepest ≤ l.deepest ∧ Stays stop l) :=
  (counts_exactText apart).token

/-- Mute symbols keep the count. -/
theorem keeps_symbol {pattern : String} (all : pattern.toList.all isMute = true)
    : KeepsCount (symbol pattern) := by
  have mute := List.all_eq_true.mp all
  refine (counts_symbol fun c member => not_isQuote_of_isMute (mute c member)).mono ?_
  rintro n _ l - ⟨start, stop, before, ⟨outside, rfl⟩, -, after⟩
  exact (before.keeps.trans (keeps_foldl outside mute).2).trans after.keeps

theorem keeps_char {c : Char} (mute : isMute c = true)
    : KeepsCount (char c) := by
  refine (counts_exactText ?_).mono ?_
  · exact List.forall_mem_singleton.mpr (not_isQuote_of_isMute mute)
  · rintro n _ m - ⟨outside, rfl⟩
    exact keeps_step outside mute

/-- Commas between values keep the count. -/
theorem Counts.commaSeparated {p : Parser α} (h : Counts p (Within good))
    : Counts (Parser.commaSeparated p)
        (Within fun room values => ∀ value ∈ values, good room value) := by
  intro text values rest read
  unfold Parser.commaSeparated at read
  split at read
  · obtain ⟨rfl, rfl⟩ := Prod.mk.inj (Except.ok.inj read)
    exact TakesAll.nil text
  · next first after start =>
    obtain ⟨rfl, rfl⟩ := Prod.mk.inj (Except.ok.inj read)
    have later : Counts (do char ','; p) (Within good) :=
      (keeps_char rfl).within_after fun _ => h
    exact TakesAll.cons h start (takesAll_manyFrom later after)

theorem keeps_notBefore (c : Char) : KeepsCount (notBefore c) := by
  refine .mute fun text value rest read => ?_
  unfold notBefore at read
  split at read
  · exact nomatch read
  · obtain ⟨-, rfl⟩ := Prod.mk.inj (Except.ok.inj read)
    exact .refl text

/-- A sign lengthens the run of signs. -/
structure Signs (n m : Nesting) : Prop where
  brackets : m.brackets = n.brackets
  powers : m.powers = n.powers
  signs : m.signs = n.signs + 1
  deep : m.brackets + m.signs + m.powers ≤ m.deepest

theorem signs_step {n : Nesting} (outside : n.IsOutside) {c : Char} (sign : c = '-' ∨ c = '+')
    : Signs n (n.step c) := by
  rw [outside.step_eq]
  rcases sign with rfl | rfl <;> exact ⟨rfl, rfl, rfl, n.le_deepest_stepOutside _⟩

theorem counts_sign {pattern : String} (sign : pattern = "-" ∨ pattern = "+")
    : Counts (symbol pattern) (fun n _ m => Signs n m) := by
  obtain ⟨c, isSign, same⟩ : ∃ c, (c = '-' ∨ c = '+') ∧ pattern.toList = [c] := by
    rcases sign with rfl | rfl
    · exact ⟨'-', .inl rfl, rfl⟩
    · exact ⟨'+', .inr rfl, rfl⟩
  refine (counts_symbol ?_).mono ?_
  · rw [same]
    rcases isSign with rfl | rfl <;> exact List.forall_mem_singleton.mpr rfl
  · rintro n _ l - ⟨start, stop, ⟨_, _, _⟩, ⟨outside, rfl⟩, deeper, ⟨_, _, _⟩⟩
    rw [same] at *
    obtain ⟨_, _, _, _⟩ : Signs start ([c].foldl Nesting.step start) := signs_step outside isSign
    constructor <;> omega

/-- A power is counted for the rest of the text. -/
structure Raises (n m : Nesting) : Prop where
  brackets : m.brackets = n.brackets
  powers : n.powers + 1 ≤ m.powers
  deep : m.brackets + m.powers ≤ m.deepest

theorem raises_foldl {n : Nesting} (outside : n.IsOutside) {mark : List Char}
    (raises : mark = ['*', '*'] ∨ mark = ['^'])
    : Raises n (mark.foldl Nesting.step n) := by
  rcases raises with rfl | rfl
  · have between : (n.step '*').IsOutside := outside.step rfl
    have previous : (n.step '*').previous = '*' := by
      rw [outside.step_eq]
      rfl
    have powers : ((n.step '*').stepOutside '*').powers = (n.step '*').powers + 1 := by
      simp [Nesting.stepOutside, previous]
    have brackets : ((n.step '*').stepOutside '*').brackets = (n.step '*').brackets := rfl
    have deep := (n.step '*').le_deepest_stepOutside '*'
    obtain ⟨_, _⟩ : Keeps n (n.step '*') := keeps_step outside rfl
    have twice : ['*', '*'].foldl Nesting.step n = (n.step '*').stepOutside '*' :=
      between.step_eq '*'
    rw [twice]
    constructor <;> omega
  · have once : ['^'].foldl Nesting.step n = n.stepOutside '^' := outside.step_eq '^'
    have powers : (n.stepOutside '^').powers = n.powers + 1 := rfl
    have brackets : (n.stepOutside '^').brackets = n.brackets := rfl
    have deep := n.le_deepest_stepOutside '^'
    rw [once]
    constructor <;> omega

theorem counts_powerMark
    : Counts (orElse (symbol "**") (symbol "^")) (fun n _ m => Raises n m) := by
  have marked {pattern : String} (raises : pattern.toList = ['*', '*'] ∨ pattern.toList = ['^'])
      : Counts (symbol pattern) (fun n _ m => Raises n m) := by
    have apart : ∀ c ∈ pattern.toList, isQuote c = false := by
      rcases raises with same | same <;> simp [same, isQuote]
    refine (counts_symbol apart).mono ?_
    rintro n _ l - ⟨start, stop, ⟨_, _, _⟩, ⟨outside, rfl⟩, deeper, ⟨_, _, _⟩⟩
    obtain ⟨_, _, _⟩ := raises_foldl outside raises
    constructor <;> omega
  exact (marked (.inl rfl)).orElse (marked (.inr rfl))

-----------------------------------------------------------------------------------------
-- Brackets
-----------------------------------------------------------------------------------------

/-- A bracket is opened. -/
structure Enters (n m : Nesting) : Prop where
  brackets : m.brackets = n.brackets + 1
  powers : n.powers ≤ m.powers
  deep : m.brackets + m.powers ≤ m.deepest

/-- A bracket is closed. -/
structure Leaves (n m : Nesting) : Prop where
  brackets : m.brackets = n.brackets - 1
  powers : n.powers ≤ m.powers

theorem enters_step {n : Nesting} (outside : n.IsOutside) {c : Char} (opens : opensBracket c = true)
    : Enters n (n.step c) := by
  have brackets : (n.stepOutside c).brackets = n.brackets + 1 := by
    simp [Nesting.stepOutside, opens]
  have deep := n.le_deepest_stepOutside c
  rw [outside.step_eq]
  exact ⟨brackets, n.powers_le_stepOutside c, by omega⟩

theorem leaves_step {n : Nesting} (outside : n.IsOutside) {c : Char}
    (closes : closesBracket c = true)
    : Leaves n (n.step c) := by
  have other : opensBracket c = false := by
    simp only [closesBracket, Bool.or_eq_true, beq_iff_eq] at closes
    rcases closes with (rfl | rfl) | rfl <;> rfl
  rw [outside.step_eq]
  refine ⟨?_, n.powers_le_stepOutside c⟩
  simp [Nesting.stepOutside, other, closes]

theorem not_isQuote_of_bracket {c : Char} (bracket : (opensBracket c || closesBracket c) = true)
    : isQuote c = false := by
  simp only [opensBracket, closesBracket, Bool.or_eq_true, beq_iff_eq] at bracket
  rcases bracket with ((rfl | rfl) | rfl) | ((rfl | rfl) | rfl) <;> rfl

theorem enters_char {c : Char} (opens : opensBracket c = true)
    : Counts (char c) (fun n _ m => Enters n m) := by
  have apart : isQuote c = false := not_isQuote_of_bracket (by rw [opens, Bool.true_or])
  refine (counts_exactText (List.forall_mem_singleton.mpr apart)).mono ?_
  rintro n _ m - ⟨outside, rfl⟩
  exact enters_step outside opens

theorem leaves_char {c : Char} (closes : closesBracket c = true)
    : Counts (char c) (fun n _ m => Leaves n m) := by
  have apart : isQuote c = false := not_isQuote_of_bracket (by rw [closes, Bool.or_true])
  refine (counts_exactText (List.forall_mem_singleton.mpr apart)).mono ?_
  rintro n _ m - ⟨outside, rfl⟩
  exact leaves_step outside closes

/-- Spaces around a bracket do not count. -/
theorem Counts.token_enters {p : Parser α} (h : Counts p (fun n _ m => Enters n m))
    : Counts (Parser.token p) (fun n _ m => Enters n m) := by
  refine h.token.mono ?_
  rintro n _ l - ⟨start, stop, ⟨_, _, _⟩, ⟨_, _, _⟩, deeper, ⟨_, _, _⟩⟩
  constructor <;> omega

theorem Counts.token_leaves {p : Parser α} (h : Counts p (fun n _ m => Leaves n m))
    : Counts (Parser.token p) (fun n _ m => Leaves n m) := by
  refine h.token.mono ?_
  rintro n _ l - ⟨start, stop, ⟨_, _, _⟩, ⟨_, _⟩, deeper, ⟨_, _, _⟩⟩
  constructor <;> omega

/-- A value is read in front of the bracket that closes the innermost open one; it is `good` for
every room behind the opening bracket. -/
def Leaving (good : Nat → α → Prop) (n : Nesting) (value : α) (m : Nesting) : Prop :=
  0 < n.brackets → Leaves n m
    ∧ ∀ room, m.deepest ≤ n.brackets + n.powers + room → good room value

/-- Behind an opening bracket there is room for one less. -/
theorem Counts.within_open {opening : Parser Unit} {inside : Parser α}
    (enters : Counts opening (fun n _ m => Enters n m)) (h : Counts inside (Leaving good))
    (closed : ∀ room value, good room value → fit (room + 1) value)
    : Counts (opening >>= fun _ => inside) (Within fit) := by
  refine (enters.bind fun _ => h).mono ?_
  rintro n value l - ⟨-, m, ⟨_, _, _⟩, deeper, leaving⟩
  obtain ⟨⟨_, _⟩, fits⟩ := leaving (by omega)
  refine ⟨⟨by omega, by omega⟩, fun room deep => ?_⟩
  obtain ⟨less, rfl⟩ : ∃ less, room = less + 1 := ⟨room - 1, by omega⟩
  exact closed less value (fits less (by omega))

theorem Counts.leaving_bind {first : Parser α} {next : α → Parser β}
    (left : Counts first (Within good))
    (right : ∀ value, Counts (next value) (Leaving fun room result =>
      good room value → fine room result))
    : Counts (first >>= next) (Leaving fine) := by
  refine (left.bind right).mono ?_
  rintro n result l - ⟨value, m, ⟨⟨_, _⟩, fits⟩, deeper, leaving⟩ opened
  obtain ⟨⟨_, _⟩, result⟩ := leaving (by omega)
  refine ⟨⟨by omega, by omega⟩, fun room deep => result room (by omega) (fits room (by omega))⟩

theorem Counts.leaving_close {closing : Parser Unit} {value : α}
    (leaves : Counts closing (fun n _ m => Leaves n m)) (h : ∀ room, good room value)
    : Counts (closing >>= fun _ => Pure.pure value) (Leaving good) := by
  refine (leaves.bind fun _ => .pure_eq value).mono ?_
  rintro n _ l - ⟨-, m, leaves, -, rfl, rfl⟩ -
  exact ⟨leaves, fun room _ => h room⟩

-----------------------------------------------------------------------------------------
-- Words
-----------------------------------------------------------------------------------------

theorem isMute_of_isBare {c : Char} (bare : isBare c = true) : isMute c = true := by
  simp only [isMute, opensBracket, closesBracket, isQuote, Bool.not_eq_true',
    Bool.or_eq_false_iff, beq_eq_false_iff_ne]
  refine ⟨⟨⟨⟨?_, ?_⟩, ?_⟩, ⟨?_, ?_⟩, ?_⟩, ?_, ?_⟩ <;> exact ne_of_kind bare rfl

theorem keeps_ofOption {read : List Char → Option (α × List Char)}
    (h : ∀ {text value rest}, read text = some (value, rest) → LeavesMute text rest)
    : KeepsCount (ofOption read) := by
  refine .mute fun text value rest result => ?_
  unfold ofOption at result
  split at result
  · next found =>
    obtain ⟨-, rfl⟩ := Prod.mk.inj (Except.ok.inj result)
    exact h found
  · exact nomatch result

theorem leavesMute_name? {text name rest : List Char} (h : name? text = some (name, rest))
    : LeavesMute text rest := by
  cases text with
  | nil => cases h
  | cons c text =>
      simp only [name?] at h
      split at h
      · next starts =>
        obtain ⟨-, rfl⟩ := Prod.mk.inj (Option.some.inj h)
        have first : isBare c = true :=
          isBare_of_continuesName (by rw [continuesName, starts, Bool.true_or])
        refine (LeavesMute.cons (isMute_of_isBare first) _).trans (leavesMute_dropWhile ?_ _)
        exact fun c continues => isMute_of_isBare (isBare_of_continuesName continues)
      · cases h

theorem keeps_identifier : KeepsCount identifier :=
  (keeps_ofOption leavesMute_name?).bind fun _ => .pure _

/-- Digits at the start of a text are taken away. -/
theorem leavesMute_digitRun (text : List Char) : LeavesMute text (digitRun text).2 :=
  leavesMute_dropWhile (fun _ digit => isMute_of_isBare (isBare_of_isDigit digit)) text

theorem leavesMute_exponent? {text rest : List Char} {exponent : Bool × List Char}
    (h : exponent? text = some (exponent, rest))
    : LeavesMute text rest := by
  cases text with
  | nil => exact nomatch h
  | cons mark text =>
      -- The digits stand behind a sign or not.
      have ending {negative : Bool} {after : List Char} (before : LeavesMute text after)
          (read : (if (digitRun after).1.isEmpty then none
            else some ((negative, (digitRun after).1), (digitRun after).2)) = some (exponent, rest))
          : LeavesMute text rest := by
        split at read
        · exact nomatch read
        · obtain ⟨-, rfl⟩ := Prod.mk.inj (Option.some.inj read)
          exact before.trans (leavesMute_digitRun after)
      simp only [exponent?] at h
      split at h
      · next letter =>
        have first : LeavesMute (mark :: text) text := by
          rcases letter with rfl | rfl <;> exact .cons rfl text
        refine first.trans ?_
        split at h
        · exact ending (.cons rfl _) h
        · exact ending (.cons rfl _) h
        · exact ending (.refl text) h
      · exact nomatch h

theorem leavesMute_withExponent (whole : List Char) (fraction : Option (List Char))
    (text : List Char)
    : LeavesMute text (withExponent whole fraction text).2 := by
  unfold withExponent
  split
  · next found => exact leavesMute_exponent? found
  · exact .refl text

theorem leavesMute_readNumeral? {text rest : List Char} {numeral : Numeral}
    (h : Numeral.read? text = some (numeral, rest))
    : LeavesMute text rest := by
  have digits := leavesMute_digitRun text
  -- A numeral ends with its power of ten, behind a fraction or not.
  have ending {whole after : List Char} {fraction : Option (List Char)}
      (before : LeavesMute text after)
      (read : some (withExponent whole fraction after) = some (numeral, rest))
      : LeavesMute text rest := by
    have behind := leavesMute_withExponent whole fraction after
    rw [Option.some.inj read] at behind
    exact before.trans behind
  have pointed {after : List Char} (point : (digitRun text).2 = '.' :: after)
      : LeavesMute text (digitRun after).2 := by
    rw [point] at digits
    exact (digits.trans (.cons rfl after)).trans (leavesMute_digitRun after)
  simp only [Numeral.read?] at h
  split at h
  · split at h
    · next after point =>
      split at h
      · exact nomatch h
      · exact ending (pointed point) h
    · exact nomatch h
  · split at h
    · next after point => exact ending (pointed point) h
    · exact ending digits h

/-- The body of a string counts nothing up to the mark behind it, by induction on the reader. -/
theorem exists_of_stringBody {mark : Char} {text content rest : List Char}
    (h : stringBody mark text = some (content, rest)) (apart : mark ≠ '\\')
    : ∃ taken, text = taken ++ rest ∧ ∀ n : Nesting, n.mark = some mark → n.escaped = false →
        taken.foldl Nesting.step n = { n with mark := none } := by
  induction text using stringBody.induct mark generalizing content with
  | case1 => exact nomatch h
  | case2 => exact nomatch h
  | case3 c text ih =>
      rw [stringBody] at h
      obtain ⟨⟨inner, after⟩, read, same⟩ := Option.map_eq_some_iff.mp h
      obtain ⟨-, rfl⟩ := Prod.mk.inj same
      obtain ⟨taken, rfl, counted⟩ := ih read
      refine ⟨'\\' :: c :: taken, rfl, fun n inside plain => ?_⟩
      have back : (n.step '\\').step c = n := by
        obtain ⟨_, _, _, _, _, _, _⟩ := n
        obtain rfl : _ = some mark := inside
        obtain rfl : _ = false := plain
        rfl
      rw [List.foldl_cons, List.foldl_cons, back]
      exact counted n inside plain
  | case4 text slash =>
      rw [stringBody.eq_4 _ _ _ slash, if_pos rfl] at h
      obtain ⟨-, rfl⟩ := Prod.mk.inj (Option.some.inj h)
      refine ⟨[mark], rfl, fun n inside plain => ?_⟩
      rw [List.foldl_cons, List.foldl_nil, Nesting.step, inside]
      simp only [Nesting.stepInside, plain, apart, Bool.false_eq_true, if_false, if_true]
  | case5 c text slash other ih =>
      rw [stringBody.eq_4 _ _ _ slash, if_neg other] at h
      obtain ⟨⟨inner, after⟩, read, same⟩ := Option.map_eq_some_iff.mp h
      obtain ⟨-, rfl⟩ := Prod.mk.inj same
      obtain ⟨taken, rfl, counted⟩ := ih read
      refine ⟨c :: taken, rfl, fun n inside plain => ?_⟩
      have still : n.step c = n := by
        rw [Nesting.step, inside]
        have letter : c ≠ '\\' := slash
        simp only [Nesting.stepInside, plain, letter, other, Bool.false_eq_true, if_false]
      rw [List.foldl_cons, still]
      exact counted n inside plain

/-- A mark opens a string and counts nothing else. -/
theorem opens_step {n : Nesting} (outside : n.IsOutside) {mark : Char}
    (quote : mark = '\'' ∨ mark = '"')
    : (n.step mark).mark = some mark ∧ (n.step mark).escaped = false ∧ Keeps n (n.step mark) := by
  rw [outside.step_eq]
  refine ⟨?_, outside.escaped, ?_, n.powers_le_stepOutside mark⟩ <;>
    rcases quote with rfl | rfl <;> rfl

/-- A string counts like its first mark alone. -/
theorem keeps_stringLiteral : KeepsCount (ofOption string?) := by
  intro text content rest read
  unfold ofOption at read
  split at read
  · next found =>
    obtain ⟨rfl, rfl⟩ := Prod.mk.inj (Except.ok.inj read)
    cases text with
    | nil => cases found
    | cons mark text =>
        rw [string?] at found
        split at found
        · next quote =>
          have apart : mark ≠ '\\' := by rcases quote with rfl | rfl <;> decide
          obtain ⟨taken, rfl, counted⟩ := exists_of_stringBody found apart
          refine ⟨mark :: taken, rfl, fun n outside => ?_⟩
          obtain ⟨opened, plain, keeps⟩ := opens_step outside quote
          rw [List.foldl_cons, counted _ opened plain]
          exact ⟨⟨rfl, plain⟩, keeps.brackets, keeps.powers⟩
        · cases found
  · cases read

end QuizVariants.Expr
