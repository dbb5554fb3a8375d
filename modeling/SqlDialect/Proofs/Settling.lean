import SqlDialect.Proofs.FormatCalls

/-!
Nothing is left to respell. Each pass puts words in the place of calls. What stands for a call starts like a
name, where a word may start, and ends as the call does, so no call arises where old and new text meet. Only
a format that moves around its value is written as it stands, with what it holds between its quotes.
-/
set_option autoImplicit false

namespace SqlDialect.Fragment

open Text

/-- What stands for a match of the pattern starts with a letter, where a word may start, and ends as the
match does. -/
def ReplacesWords (p : Pattern (List Char)) : Prop :=
  ∀ before cs m, p before cs = some m →
    wordMayStart before = true ∧ (∃ first v, m.value = first :: v ∧ isNameChar first = true) ∧
      ∃ w rest, cs = w ++ rest ∧ w ≠ [] ∧ m.length = w.length ∧ m.value.getLast? = w.getLast?

theorem nowCall_replacesWords : ReplacesWords nowCall := by
  intro before cs m h
  obtain ⟨start, _, rest, ⟨name, gap, rfl, _⟩, rfl, rfl⟩ := nowCall_eq_some_iff.mp h
  refine ⟨start, ⟨'C', _, rfl, by decide⟩, _, rest, rfl, by simp, rfl, ?_⟩
  have last : currentTimestamp.getLast? = some ')' := by decide
  rw [last, ← List.cons_append, ← List.append_assoc, List.getLast?_concat]

theorem dateFormatCall_replacesWords : ReplacesWords dateFormatCall := by
  intro before cs m h
  obtain ⟨start, name, gap, rest, _, _, rfl, rfl⟩ := dateFormatCall_eq_some_iff.mp h
  refine ⟨start, ⟨'F', _, rfl, by decide⟩, _, rest, rfl, by simp, rfl, ?_⟩
  rw [← List.append_assoc, List.getLast?_concat, List.getLast?_concat]

theorem dateFormatLiteral_replacesWords : ReplacesWords dateFormatLiteral := by
  intro before cs m h
  obtain ⟨start, value, format, _, rest, _, ⟨name, gap, a, b, c, d, rfl, _⟩, rfl, rfl⟩ :=
    dateFormatLiteral_eq h
  refine ⟨start, ⟨'F', _, rfl, by decide⟩, _, rest, rfl, by simp, rfl, ?_⟩
  have whole : name ++ (gap ++ '(' :: (a ++ (value ++ (b ++ ',' :: (c ++ (format ++ (d ++ [')']))))))) =
      name ++ (gap ++ '(' :: (a ++ (value ++ (b ++ ',' :: (c ++ (format ++ d)))))) ++ [')'] := by simp
  rw [whole, List.getLast?_concat, List.getLast?_concat]

theorem getLast?_or {w : List Char} (nonempty : w ≠ []) (before : Option Char) :
    w.getLast?.or before = w.getLast? := by
  rw [List.getLast?_eq_some_getLast nonempty, Option.some_or]

section

variable {α : Type} {p : Pattern (List Char)} {q : Pattern α} {shape : List Char → Prop} {letter : Char}

theorem ReplacesWords.induct (hp : ReplacesWords p) {motive : Option Char → List Char → Prop}
    (nil : ∀ before, motive before [])
    (keep : ∀ before c cs, p before (c :: cs) = none → motive (some c) cs → motive before (c :: cs))
    (replace : ∀ before w rest value, p before (w ++ rest) = some ⟨w.length, value⟩ → w ≠ [] →
      value.getLast? = w.getLast? → motive w.getLast? rest → motive before (w ++ rest))
    (before : Option Char) (cs : List Char) : motive before cs := by
  induction hn : cs.length using Nat.strongRecOn generalizing before cs with
  | ind n ih =>
    cases cs with
    | nil => exact nil before
    | cons c cs =>
      cases hm : p before (c :: cs) with
      | none => exact keep before c cs hm (ih cs.length (by simp [← hn]) _ _ rfl)
      | some m =>
        obtain ⟨_, _, w, rest, text, nonempty, length, last⟩ := hp before _ m hm
        have shorter : rest.length < n := by
          have positive := List.length_pos_iff.mpr nonempty
          rw [← hn, text, List.length_append]
          omega
        rw [text] at hm ⊢
        exact replace before w rest m.value (length ▸ hm) nonempty last (ih _ shorter _ _ rfl)

/-- Neighbours that join are not parted by a match, so a call that starts in what is kept was there before. -/
theorem ReplacesWords.prefix_of_replaceFrom (hp : ReplacesWords p) {c : Char} {u cs : List Char}
    (chain : (c :: u).IsChain Joins) (h : u <+: replaceFrom p (some c) 0 cs) : u <+: cs := by
  induction cs generalizing c u with
  | nil => exact h
  | cons d cs ih =>
    cases u with
    | nil => exact List.nil_prefix
    | cons r u =>
      obtain ⟨joins, inner⟩ := List.isChain_cons_cons.mp chain
      rw [replaceFrom] at h
      cases hm : p (some c) (d :: cs) with
      | none =>
        rw [hm] at h
        obtain ⟨rfl, h⟩ := List.cons_prefix_cons.mp h
        exact List.cons_prefix_cons.mpr ⟨rfl, ih inner h⟩
      | some m =>
        -- no word goes on where the match starts, and a name only joins what a word goes on from
        obtain ⟨start, ⟨first, v, value, name⟩, -⟩ := hp _ _ m hm
        obtain ⟨rest, h⟩ := h
        simp only [hm, value] at h
        obtain ⟨rfl, -⟩ := List.cons.inj h
        have word : isNameChar c = true := by
          rcases joins with ⟨word, -⟩ | ⟨-, tail⟩
          · exact word
          · rw [isTail_of_isNameChar name] at tail
            contradiction
        rw [wordMayStart, isWord_of_isNameChar word] at start
        contradiction

theorem ReplacesWords.eq_none (hp : ReplacesWords p) (hq : FindsCalls q shape letter) {before : Option Char}
    {c : Char} {cs : List Char} (h : q before (c :: cs) = none) :
    q before (c :: replaceFrom p (some c) 0 cs) = none := by
  rw [← Option.not_isSome_iff_eq_none, hq.finds] at h ⊢
  rintro ⟨start, w, rest, text, hw⟩
  obtain ⟨first, u, rfl, _⟩ := hq.starts w hw
  obtain ⟨rfl, inner⟩ := List.cons.inj text
  obtain ⟨rest', rfl⟩ := hp.prefix_of_replaceFrom (hq.chain _ hw) ⟨rest, inner.symm⟩
  exact h ⟨start, _, rest', rfl, hw⟩

/-- A pass leaves no call, if it finds none in what is kept and none in what stands for a match. What is known
of the text may depend on how far the pass has come. -/
theorem ReplacesWords.quiet_replaceFrom (known : Option Char → List Char → Prop) (hp : ReplacesWords p)
    (hq : FindsCalls q shape letter)
    (keep : ∀ before c cs, p before (c :: cs) = none → known before (c :: cs) →
      q before (c :: cs) = none ∧ known (some c) cs)
    (replace : ∀ before w rest value, p before (w ++ rest) = some ⟨w.length, value⟩ → w ≠ [] →
      known before (w ++ rest) → (∀ after, Quiet q before value after) ∧ known w.getLast? rest)
    {before : Option Char} {cs : List Char} (h : known before cs) :
    Quiet q before (replaceFrom p before 0 cs) [] := by
  revert h
  refine hp.induct (motive := fun before cs => known before cs → Quiet q before (replaceFrom p before 0 cs) [])
    ?nil ?keep ?replace before cs
  case nil =>
    intro before _
    trivial
  case keep =>
    intro before c cs none ih h
    obtain ⟨quiet, h⟩ := keep before c cs none h
    rw [replaceFrom, none]
    refine ⟨?_, ih h⟩
    rw [List.append_nil]
    exact hp.eq_none hq quiet
  case replace =>
    intro before w rest value found nonempty last ih h
    obtain ⟨quiet, h⟩ := replace before w rest value found nonempty h
    rw [replaceFrom_match nonempty found]
    refine .append (quiet _) ?_
    rw [last, getLast?_or nonempty]
    exact ih h

/-- A pass removes the calls that it replaces. -/
theorem ReplacesWords.quiet_self (hp : ReplacesWords p) (calls : FindsCalls p shape letter)
    (values : ∀ before cs m, p before cs = some m → ∀ after, Quiet p before m.value after)
    (before : Option Char) (cs : List Char) : Quiet p before (replaceFrom p before 0 cs) [] := by
  refine hp.quiet_replaceFrom (fun _ _ => True) calls ?_ ?_ trivial
  · intro before c cs none _
    exact ⟨none, trivial⟩
  · intro before w rest value found _ _
    exact ⟨values before _ _ found, trivial⟩

/-- A pass makes no calls, where what stands for a match has none unless the match had one. -/
theorem ReplacesWords.quiet_of_quiet (hp : ReplacesWords p) (hq : FindsCalls q shape letter)
    (values : ∀ before w rest value, p before (w ++ rest) = some ⟨w.length, value⟩ →
      Quiet q before w rest → ∀ after, Quiet q before value after)
    {before : Option Char} {cs : List Char} (h : Quiet q before cs []) :
    Quiet q before (replaceFrom p before 0 cs) [] := by
  refine hp.quiet_replaceFrom (fun before cs => Quiet q before cs []) hq ?_ ?_ h
  · intro before c cs _ quiet
    exact ⟨by simpa using quiet.1, quiet.2⟩
  · intro before w rest value found nonempty quiet
    obtain ⟨left, right⟩ := quiet.split
    rw [List.append_nil] at left
    rw [getLast?_or nonempty] at right
    exact ⟨values before w rest value found left, right⟩

theorem FindsCalls.not_holds_of_quiet (hq : FindsCalls q shape letter) {before : Option Char}
    (start : wordMayStart before = true) {a rest : List Char} (quiet : Quiet q before a rest) :
    ¬ Holds shape a := by
  rintro ⟨x, w, y, rfl, hstart, hw⟩
  obtain ⟨c, u, rfl, _⟩ := hq.starts w hw
  have none := quiet.split.2.1
  have start : wordMayStart (x.getLast?.or before) = true := by
    cases hx : x.getLast? with
    | none => exact start
    | some l => rwa [hx] at hstart
  rw [← Option.not_isSome_iff_eq_none, hq.finds] at none
  exact none ⟨start, c :: u, y ++ rest, by simp, hw⟩

theorem FindsCalls.literal_free (hq : FindsCalls q shape letter) {format : List Char}
    (hformat : IsLiteral format) {before : Option Char} {rest : List Char}
    (quiet : Quiet q before format rest) : ¬ Holds shape format := by
  obtain ⟨quote, tail, rfl, hquote, -⟩ := hformat.exists_cons
  have unnamed : isNameChar quote = false := by rcases hquote with rfl | rfl <;> decide
  have alone : Quiet q none (quote :: tail) rest := ⟨hq.eq_none (hq.ne_letter unnamed) none _, quiet.2⟩
  exact hq.not_holds_of_quiet rfl alone

theorem FindsCalls.holds_tail (hq : FindsCalls q shape letter) {c : Char} (unnamed : isNameChar c = false)
    {cs : List Char} (h : Holds shape (c :: cs)) : Holds shape cs := by
  obtain ⟨x, w, y, text, start, hw⟩ := h
  cases x with
  | nil =>
    obtain ⟨first, u, rfl, hfirst⟩ := hq.starts w hw
    obtain ⟨rfl, -⟩ := List.cons.inj text
    exact absurd hfirst (hq.ne_letter unnamed)
  | cons d x =>
    obtain ⟨-, rfl⟩ := List.cons.inj text
    refine ⟨x, w, y, rfl, ?_, hw⟩
    cases x with
    | nil => rfl
    | cons e x => rwa [List.getLast?_cons_cons] at start

end

theorem FindsCalls.quiet_currentTimestamp {α : Type} {q : Pattern α} {shape : List Char → Prop} {letter : Char}
    (hq : FindsCalls q shape letter) (other : 'c' ≠ letter) (before : Option Char) (after : List Char) :
    Quiet q before currentTimestamp after := by
  have split : currentTimestamp = "CURRENT_TIMESTAMP".toList ++ ['(', ')'] := by decide
  have letters : ∀ c ∈ "CURRENT_TIMESTAMP".toList, isNameChar c = true := List.all_eq_true.mp (by decide)
  rw [split]
  exact .append (hq.quiet_other letters other before) (hq.quiet_unnamed (by decide) _)

theorem not_holds_respellNow (cs : List Char) : ¬ Holds IsNowCall (respellNow cs) := by
  have calls := nowCall_findsCalls
  refine calls.not_holds_of_quiet rfl (nowCall_replacesWords.quiet_self calls ?_ none cs)
  intro before cs m h after
  obtain ⟨_, w, rest, _, _, rfl⟩ := nowCall_eq_some_iff.mp h
  exact calls.quiet_currentTimestamp (by decide) before after

theorem FindsCalls.quiet_dateFormatCall {α : Type} {q : Pattern α} {shape : List Char → Prop} {letter : Char}
    (hq : FindsCalls q shape letter) (other : 'f' ≠ letter) {before : Option Char} {cs : List Char}
    {m : Match (List Char)} (h : dateFormatCall before cs = some m) (after : List Char) :
    Quiet q before m.value after := by
  obtain ⟨_, name, gap, rest, _, blank, _, rfl⟩ := dateFormatCall_eq_some_iff.mp h
  change Quiet q before (formatTimestamp ++ gap ++ ['(']) after
  rw [List.append_assoc]
  have unnamed : gap.any isNameChar = false := by
    refine List.any_eq_false.mpr fun c hc name => ?_
    exact Bool.false_ne_true ((isSpace_of_isNameChar name).symm.trans (blank c hc))
  refine hq.quiet_formatTimestamp other ?_ before
  rw [List.any_append, unnamed]
  rfl

theorem dateFormatLiteral_match {before : Option Char} {w rest value : List Char}
    (h : dateFormatLiteral before (w ++ rest) = some ⟨w.length, value⟩) :
    wordMayStart before = true ∧ ∃ argument format, (∀ c ∈ argument, isFlat c = true) ∧
      IsLiteralCall argument format w ∧
      value = formatTimestamp ++ '(' :: format ++ [',', ' '] ++ argument ++ [')'] := by
  obtain ⟨start, argument, format, w', rest', flat, call, text, same⟩ := dateFormatLiteral_eq h
  obtain ⟨length, rfl⟩ := Match.mk.inj same
  obtain ⟨rfl, rfl⟩ := List.append_inj text length
  exact ⟨start, argument, format, flat, call, rfl⟩

theorem quiet_nowCall_swapped {before : Option Char} {w rest value : List Char}
    (h : dateFormatLiteral before (w ++ rest) = some ⟨w.length, value⟩) (quiet : Quiet nowCall before w rest)
    (after : List Char) : Quiet nowCall before value after := by
  obtain ⟨_, argument, format, flat, call, rfl⟩ := dateFormatLiteral_match h
  obtain ⟨name, gap, a, b, c, d, rfl, -, -, -, -, -, -, literal⟩ := call
  have parts : name ++ (gap ++ '(' :: (a ++ (argument ++ (b ++ ',' :: (c ++ (format ++ (d ++ [')']))))))) =
      name ++ (gap ++ '(' :: (a ++ (argument ++ (b ++ ',' :: c)))) ++ (format ++ (d ++ [')'])) := by simp
  rw [parts] at quiet
  have free := nowCall_findsCalls.literal_free literal quiet.split.2.split.1
  have no_bracket : '(' ∉ argument := fun mem => absurd (flat _ mem) (by decide)
  have swapped : Quiet nowCall before
      ((formatTimestamp ++ ['(']) ++ (format ++ ([',', ' '] ++ argument ++ [')']))) after :=
    nowCall_findsCalls.quiet_swapped (by decide) no_bracket literal free before
  simpa using swapped

theorem not_holdsCall_respellDateFormat {cs : List Char} (free : ¬ Holds IsNowCall cs) :
    ¬ HoldsCall (respellDateFormat cs) := by
  have now := nowCall_findsCalls
  have date := dateFormatCall_findsCalls
  rintro (held | held)
  · have swapped : Quiet nowCall none (replaceAll dateFormatLiteral cs) [] :=
      dateFormatLiteral_replacesWords.quiet_of_quiet now
        (fun _ _ _ _ found quiet => quiet_nowCall_swapped found quiet) (now.quiet_of_not_holds free none)
    have renamed : Quiet nowCall none (respellDateFormat cs) [] :=
      dateFormatCall_replacesWords.quiet_of_quiet now
        (fun _ _ _ _ found _ => now.quiet_dateFormatCall (by decide) found) swapped
    exact now.not_holds_of_quiet rfl renamed held
  · have renamed : Quiet dateFormatCall none (respellDateFormat cs) [] :=
      dateFormatCall_replacesWords.quiet_self date
        (fun _ _ _ found => date.quiet_dateFormatCall (by decide) found) none _
    exact date.not_holds_of_quiet rfl renamed held

variable {P : Type}

theorem mem_of_text_mem_interleave {fs : List String} {ps : List P} {s : String}
    (h : .text s ∈ interleave fs ps) : s ∈ fs := by
  have own {f : String} (h : .text s ∈ (Piece.ofText f : List (Piece P))) : s = f := by
    unfold Piece.ofText at h
    split at h
    · contradiction
    · simpa using h
  fun_induction interleave fs ps with
  | case1 ps => simp at h
  | case2 f fs ih =>
    rcases List.mem_append.mp h with h | h
    · exact own h ▸ List.mem_cons_self
    · exact List.mem_cons_of_mem f (ih h)
  | case3 f fs p ps ih =>
    rcases List.mem_append.mp h with h | h
    · exact own h ▸ List.mem_cons_self
    · exact List.mem_cons_of_mem f (ih (by simpa using h))

/-- Two texts around the value of a call of `DATE_FORMAT`: the call is open where the one ends, and the other
starts with the format and ends the call. -/
structure Surrounds (head tail format : List Char) : Prop where
  opens : ∃ lead w gap, head = lead ++ (w ++ gap) ∧ wordMayStart lead.getLast? = true ∧ IsOpening w ∧ Blank gap
  closes : ∃ a b c rest, Blank a ∧ Blank b ∧ Blank c ∧ IsLiteral format ∧
    tail = a ++ ',' :: (b ++ (format ++ (c ++ ')' :: rest)))

/-- The pieces around a value. No call is left but for names with a bracket that the format holds. -/
def SettledAround (format : List Char) (p : P) (pieces : List (Piece P)) : Prop :=
  ∃ front back, pieces = [.text front, .text (String.ofList (format ++ [',', ' '])), .param p, .text back] ∧
    ¬ HoldsCall front.toList ∧ ¬ HoldsCall back.toList ∧ ¬ Holds IsNowCall (format ++ [',', ' ']) ∧
    ∀ x w y, format ++ [',', ' '] = x ++ (w ++ y) → IsOpening w → ∃ z, format = x ++ (w ++ z)

theorem occurs_openAtEnd {head : List Char} (h : occurs openAtEnd none head = true) :
    ∃ lead w gap, head = lead ++ (w ++ gap) ∧ wordMayStart lead.getLast? = true ∧ IsOpening w ∧ Blank gap := by
  obtain ⟨lead, cs, rfl, found⟩ := occurs_iff.mp h
  obtain ⟨m, found⟩ := Option.isSome_iff_exists.mp found
  simp only [openAtEnd, Option.bind_eq_bind, Option.bind_eq_some_iff, Prod.exists,
    Option.ite_none_right_eq_some, List.isEmpty_iff] at found
  obtain ⟨gap, inner, opening, blank, -⟩ := found
  obtain ⟨start, name, named, hgap, rfl⟩ := openDateFormat_eq_some_iff.mp opening
  have inner_eq := takeWhile_skipSpace inner
  rw [blank, List.append_nil] at inner_eq
  refine ⟨lead, name ++ (gap ++ ['(']), inner, by simp, by simpa using start, ⟨name, gap, rfl, named, hgap⟩, ?_⟩
  exact inner_eq ▸ blank_takeWhile inner

theorem opening_in_format {format x w y : List Char} (h : format ++ [',', ' '] = x ++ (w ++ y))
    (opening : IsOpening w) : ∃ z, format = x ++ (w ++ z) := by
  obtain ⟨name, gap, rfl, -⟩ := opening
  rw [← List.append_assoc, List.append_eq_append_iff] at h
  rcases h with ⟨z, whole, comma⟩ | ⟨z, whole, -⟩
  · have none : z = [] := by
      by_contra nonempty
      have last : z.getLast? = some '(' := by
        rw [← getLast?_or nonempty format.getLast?, ← List.getLast?_append, ← whole]
        simp
      have held : '(' ∈ [',', ' '] := comma ▸ List.mem_append_left y (List.mem_of_getLast? last)
      exact absurd held (by decide)
    exact ⟨[], by simpa [none] using whole.symm⟩
  · exact ⟨z, by simpa using whole⟩

theorem settledAround_of_swapAround {head tail : List Char} (hhead : ¬ Holds IsNowCall head)
    (htail : ¬ Holds IsNowCall tail) {p : P} {pieces : List (Piece P)}
    (h : swapAround head tail p = some pieces) :
    ∃ format, Surrounds head tail format ∧ SettledAround format p pieces := by
  have now := nowCall_findsCalls
  obtain ⟨opens, format, rest, argument, rfl⟩ := swapAround_eq_some_iff.mp h
  obtain ⟨a, b, c, ha, hb, hc, literal, rfl⟩ := literalArgument_eq_some_iff.mp argument
  have parts : a ++ ',' :: (b ++ (format ++ (c ++ ')' :: rest))) =
      a ++ ',' :: b ++ (format ++ (c ++ [')'] ++ rest)) := by simp
  have quiet := now.quiet_of_not_holds htail none
  rw [parts] at quiet
  have format_free := now.literal_free literal quiet.split.2.split.1
  have rest_free : ¬ Holds IsNowCall rest := by
    refine now.not_holds_of_quiet ?_ quiet.split.2.split.2.split.2
    rw [List.getLast?_concat]
    rfl
  refine ⟨format, ⟨occurs_openAtEnd opens, a, b, c, rest, ha, hb, hc, literal, rfl⟩, _, _, rfl, ?front, ?back,
    ?now, fun x w y => opening_in_format⟩
  case front =>
    rw [String.toList_ofList]
    exact not_holdsCall_respellDateFormat hhead
  case back =>
    rw [String.toList_ofList]
    have settled := not_holdsCall_respellDateFormat rest_free
    rintro (held | held)
    · exact settled (.inl (now.holds_tail (by decide) held))
    · exact settled (.inr (dateFormatCall_findsCalls.holds_tail (by decide) held))
  case now =>
    have around : Quiet nowCall none (format ++ [',', ' ']) [] :=
      .append (now.quiet_literal literal format_free none) (now.quiet_unnamed (by decide) _)
    exact now.not_holds_of_quiet rfl around

/-- After respelling no piece of text holds a call of `NOW` or `DATE_FORMAT`. Only where the one parameter
between two fragments is the value of a call, the format of this call is left with what it holds; that may
be `DATE_FORMAT` with a bracket, between the quotes, and still no call of `NOW`. -/
theorem respell_settles (fs : List String) (ps : List P) :
    (∀ s, .text s ∈ respell fs ps → ¬ HoldsCall s.toList) ∨
      ∃ head tail p format, fs = [head, tail] ∧ ps = [p] ∧
        Surrounds (respellNow head.toList) (respellNow tail.toList) format ∧
        SettledAround format p (respell fs ps) := by
  obtain ⟨plain, none⟩ | plain | ⟨head, tail, p, rfl, rfl, swapped⟩ := respell_cases fs ps
  · left
    intro s hs
    rw [plain] at hs
    obtain ⟨f, hf, rfl⟩ := List.mem_map.mp (mem_of_text_mem_interleave hs)
    rw [String.toList_ofList, holdsCall_iff, none f hf, occurs_iff_holds nowCall_finds]
    simpa using not_holds_respellNow f.toList
  · left
    intro s hs
    rw [plain] at hs
    obtain ⟨f, hf, rfl⟩ := List.mem_map.mp (mem_of_text_mem_interleave hs)
    rw [String.toList_ofList]
    exact not_holdsCall_respellDateFormat (not_holds_respellNow f.toList)
  · right
    obtain ⟨format, surrounds, settled⟩ :=
      settledAround_of_swapAround (not_holds_respellNow _) (not_holds_respellNow _) swapped
    exact ⟨head, tail, p, format, rfl, rfl, surrounds, settled⟩

def formatOfCalls : List String :=
  ["NOW( ) = date_format (a, 'date_format(') or Date_Format( ", ", 'now() DATE_FORMAT(') = date_format(now(), b)"]

theorem respell_settles_formatOfCalls :
    ∃ format, Surrounds (respellNow formatOfCalls[0].toList) (respellNow formatOfCalls[1].toList) format ∧
      SettledAround format 7 (respell formatOfCalls [7]) ∧
      Piece.text "'CURRENT_TIMESTAMP() DATE_FORMAT(', " ∈ respell formatOfCalls [7] ∧
      HoldsCall "'CURRENT_TIMESTAMP() DATE_FORMAT(', ".toList := by
  have left : HoldsCall "'CURRENT_TIMESTAMP() DATE_FORMAT(', ".toList := by decide
  have pieces : respell formatOfCalls [7] =
      [.text "CURRENT_TIMESTAMP() = FORMAT_TIMESTAMP('FORMAT_TIMESTAMP(', a) or FORMAT_TIMESTAMP( ",
        .text "'CURRENT_TIMESTAMP() DATE_FORMAT(', ", .param 7,
        .text ") = FORMAT_TIMESTAMP(CURRENT_TIMESTAMP(), b)"] := rfl
  have piece : Piece.text "'CURRENT_TIMESTAMP() DATE_FORMAT(', " ∈ respell formatOfCalls [7] := by
    simp [pieces]
  rcases respell_settles formatOfCalls [7] with settled | ⟨head, tail, p, format, hfs, hps, surrounds, around⟩
  · exact absurd left (settled _ piece)
  · cases hfs
    cases hps
    exact ⟨format, surrounds, around, piece, left⟩

end SqlDialect.Fragment
