import SqlDialect.Proofs.Boundaries
import SqlDialect.Proofs.Settling

/-!
Respelling and quotes. A call holds neither quotes nor backslashes before its arguments, and so does the name
that stands for it, so a renamed call leaves open what was open before. Where arguments are exchanged this
holds as well if the call stands outside of quotes and its value holds none.
-/
set_option autoImplicit false

namespace SqlDialect.Scan

/-- Text that neither opens nor closes a quote, and holds no backslash. -/
def Bare (cs : List Char) : Prop :=
  ∀ c ∈ cs, isQuote c = false ∧ c ≠ '\\'

instance (cs : List Char) : Decidable (Bare cs) :=
  List.decidableBAll (fun c => isQuote c = false ∧ c ≠ '\\') cs

theorem Unquoted.append {a b : List Char} (ha : Unquoted a) (hb : Unquoted b) : Unquoted (a ++ b) :=
  List.forall_mem_append.mpr ⟨ha, hb⟩

theorem Bare.append {a b : List Char} (ha : Bare a) (hb : Bare b) : Bare (a ++ b) :=
  List.forall_mem_append.mpr ⟨ha, hb⟩

theorem Bare.unquoted {cs : List Char} (h : Bare cs) : Unquoted cs :=
  fun c hc => (h c hc).1

def State.resume : State → State
  | .escaped q => .inside q
  | s => s

theorem State.resume_resume (s : State) : s.resume.resume = s.resume := by
  cases s <;> rfl

theorem State.Proper.resume {s : State} (h : s.Proper) : s.resume.Proper := by
  cases s <;> exact h

theorem next_of_bare {s : State} (h : s.Proper) {c : Char} (unquoted : isQuote c = false) (hc : c ≠ '\\') :
    s.next c = s.resume := by
  cases s with
  | outside => simp [State.next, State.resume, unquoted]
  | inside q =>
    have other : c ≠ q := by
      rintro rfl
      exact Bool.false_ne_true (unquoted.symm.trans h)
    simp [State.next, State.resume, hc, other]
  | escaped q => rfl

/-- All bare texts do the same to the quotes. -/
theorem after_of_bare {s : State} (h : s.Proper) {cs : List Char} (bare : Bare cs) (nonempty : cs ≠ []) :
    s.after cs = s.resume := by
  induction cs generalizing s with
  | nil => contradiction
  | cons c cs ih =>
    obtain ⟨⟨unquoted, hc⟩, rest⟩ := List.forall_mem_cons.mp bare
    rw [State.after, List.foldl_cons, next_of_bare h unquoted hc, ← State.after]
    cases cs with
    | nil => rfl
    | cons d cs => rw [ih h.resume rest (List.cons_ne_nil d cs), s.resume_resume]

theorem State.Proper.after {s : State} (h : s.Proper) (cs : List Char) : (s.after cs).Proper := by
  induction cs generalizing s with
  | nil => exact h
  | cons c cs ih => exact ih (h.next c)

end SqlDialect.Scan

namespace SqlDialect.Fragment

open Text Scan

theorem bare_name {name found : List Char} (h : found.map Char.toLower = name)
    (letters : name.all isNameChar = true) : Bare found := by
  intro c hc
  have name := isNameChar_of_map h letters c hc
  refine ⟨isQuote_of_isNameChar name, ?_⟩
  rintro rfl
  contradiction

theorem bare_blank {gap : List Char} (h : Blank gap) : Bare gap := by
  intro c hc
  refine ⟨isQuote_of_isSpace (h c hc), ?_⟩
  rintro rfl
  exact absurd (h _ hc) (by decide)

theorem isFlat_of_isSpace {c : Char} (h : isSpace c = true) : isFlat c = true := by
  have other {d : Char} (solid : isSpace d = false) : c ≠ d := by
    rintro rfl
    exact Bool.false_ne_true (solid.symm.trans h)
  simp [isFlat, other (d := ',') (by decide), other (d := '(') (by decide), other (d := ')') (by decide)]

theorem IsNowCall.bare {w : List Char} (h : IsNowCall w) : Bare w := by
  obtain ⟨name, gap, rfl, named, blank⟩ := h
  have opening : Bare ['('] := by decide
  have closing : Bare [')'] := by decide
  exact (bare_name named (by decide)).append (opening.append ((bare_blank blank).append closing))

theorem IsOpening.bare {w : List Char} (h : IsOpening w) : Bare w := by
  obtain ⟨name, gap, rfl, named, blank⟩ := h
  have opening : Bare ['('] := by decide
  exact (bare_name named (by decide)).append ((bare_blank blank).append opening)

theorem IsLiteral.after {format : List Char} (h : IsLiteral format) :
    State.outside.after format = .outside := by
  obtain ⟨quote, body, hquote, hbody, rfl⟩ := h
  have opens : State.outside.next quote = .inside quote := by rcases hquote with rfl | rfl <;> rfl
  have closes : (State.inside quote).next quote = .outside := by rcases hquote with rfl | rfl <;> rfl
  have inside : (State.inside quote).after body = .inside quote := by
    induction hbody with
    | nil => rfl
    | plain other unescaped _ ih => simpa [State.after, State.next, other, unescaped] using ih
    | escape _ _ ih => simpa [State.after, State.next] using ih
  rw [List.cons_append, State.after, List.foldl_cons, opens, ← State.after, State.after_append, inside]
  exact closes

/-- What stands for a match does to the quotes what the match does. -/
def KeepsQuotes (p : Pattern (List Char)) : Prop :=
  ∀ before w rest value, p before (w ++ rest) = some ⟨w.length, value⟩ →
    ∀ s : State, s.Proper → s.after value = s.after w

theorem nowCall_match {before : Option Char} {w rest value : List Char}
    (h : nowCall before (w ++ rest) = some ⟨w.length, value⟩) : IsNowCall w ∧ value = currentTimestamp := by
  obtain ⟨_, w', rest', call, text, same⟩ := nowCall_eq_some_iff.mp h
  obtain ⟨length, rfl⟩ := Match.mk.inj same
  obtain ⟨rfl, rfl⟩ := List.append_inj text length
  exact ⟨call, rfl⟩

theorem nowCall_keepsQuotes : KeepsQuotes nowCall := by
  intro before w rest value found s proper
  obtain ⟨call, rfl⟩ := nowCall_match found
  have nonempty : w ≠ [] := by
    obtain ⟨name, gap, rfl, _⟩ := call
    simp
  have value : Bare currentTimestamp := by decide
  rw [after_of_bare proper value (by decide), after_of_bare proper call.bare nonempty]

theorem dateFormatCall_keepsQuotes : KeepsQuotes dateFormatCall := by
  intro before w rest value found s proper
  obtain ⟨_, name, gap, rest', named, blank, text, same⟩ := dateFormatCall_eq_some_iff.mp found
  obtain ⟨length, rfl⟩ := Match.mk.inj same
  obtain ⟨rfl, rfl⟩ := List.append_inj text length
  have call : IsOpening (name ++ (gap ++ ['('])) := ⟨name, gap, rfl, named, blank⟩
  have renamed : Bare (formatTimestamp ++ gap ++ ['(']) :=
    ((by decide : Bare formatTimestamp).append (bare_blank blank)).append (by decide)
  rw [after_of_bare proper renamed (by simp), after_of_bare proper call.bare (by simp)]

theorem after_replaceFrom {p : Pattern (List Char)} (words : ReplacesWords p) (keeps : KeepsQuotes p)
    (before : Option Char) (cs : List Char) {s : State} (proper : s.Proper) :
    s.after (replaceFrom p before 0 cs) = s.after cs := by
  revert s
  refine words.induct (motive := fun before cs => ∀ {s : State}, s.Proper →
    s.after (replaceFrom p before 0 cs) = s.after cs) ?nil ?keep ?replace before cs
  case nil =>
    intro before s _
    rfl
  case keep =>
    intro before c cs none ih s proper
    rw [replaceFrom, none]
    exact ih (proper.next c)
  case replace =>
    intro before w rest value found nonempty _ ih s proper
    rw [replaceFrom_match nonempty found, State.after_append, State.after_append,
      keeps before w rest value found s proper]
    exact ih (proper.after w)

theorem after_respellNow (cs : List Char) {s : State} (proper : s.Proper) :
    s.after (respellNow cs) = s.after cs :=
  after_replaceFrom nowCall_replacesWords nowCall_keepsQuotes none cs proper

/-- Every call of `DATE_FORMAT` stands outside of quotes, and what stands before its first comma or bracket
holds no quote. -/
def Steady (s : State) (before : Option Char) : List Char → Prop
  | [] => True
  | c :: cs =>
    (∀ found ∈ openDateFormat before (c :: cs), s = .outside ∧ Unquoted (found.2.takeWhile isFlat)) ∧
      Steady (s.next c) (some c) cs

instance (s : State) (before : Option Char) : (cs : List Char) → Decidable (Steady s before cs)
  | [] => .isTrue trivial
  | c :: cs =>
    have := instDecidableSteady (s.next c) (some c) cs
    inferInstanceAs (Decidable (_ ∧ _))

theorem openDateFormat_append {before : Option Char} {cs gap inner : List Char}
    (h : openDateFormat before cs = some (gap, inner)) (rest : List Char) :
    openDateFormat before (cs ++ rest) = some (gap, inner ++ rest) := by
  obtain ⟨start, name, named, blank, rfl⟩ := openDateFormat_eq_some_iff.mp h
  exact openDateFormat_eq_some_iff.mpr ⟨start, name, named, blank, by simp⟩

theorem openDateFormat_eq_none {before : Option Char} {cs : List Char}
    (h : dateFormatCall before cs = none) : openDateFormat before cs = none := by
  cases found : openDateFormat before cs with
  | none => rfl
  | some call => simp [dateFormatCall, found] at h

section

variable {s : State} {before : Option Char} {a rest : List Char}

theorem Steady.right (h : Steady s before (a ++ rest)) : Steady (s.after a) (a.getLast?.or before) rest := by
  induction a generalizing s before with
  | nil => exact h
  | cons c a ih =>
    rw [getLast?_cons_or]
    exact ih h.2

theorem Steady.left (h : Steady s before (a ++ rest)) : Steady s before a := by
  induction a generalizing s before with
  | nil => trivial
  | cons c a ih =>
    refine ⟨fun found opens => ?_, ih h.2⟩
    obtain ⟨outside, unquoted⟩ := h.1 _ (openDateFormat_append opens rest)
    refine ⟨outside, fun x hx => unquoted x ?_⟩
    simp only [List.takeWhile_append]
    split
    · exact List.mem_append_left _ (List.takeWhile_subset _ hx)
    · exact hx

theorem Steady.append (quiet : Quiet dateFormatCall before a rest)
    (h : Steady (s.after a) (a.getLast?.or before) rest) : Steady s before (a ++ rest) := by
  induction a generalizing s before with
  | nil => exact h
  | cons c a ih =>
    rw [getLast?_cons_or] at h
    refine ⟨fun found opens => ?_, ih quiet.2 h⟩
    have none := openDateFormat_eq_none quiet.1
    exact absurd (none.symm.trans opens) (Option.some_ne_none found).symm

theorem steady_of_unquoted {cs : List Char} (h : Unquoted cs) (before : Option Char) :
    Steady .outside before cs := by
  induction cs generalizing before with
  | nil => trivial
  | cons c cs ih =>
    obtain ⟨first, rest⟩ := List.forall_mem_cons.mp h
    refine ⟨?_, ?_⟩
    · intro found opens
      obtain ⟨_, name, _, _, text⟩ := openDateFormat_eq_some_iff.mp opens
      refine ⟨rfl, fun x hx => h x ?_⟩
      rw [text]
      simp [List.takeWhile_subset _ hx]
    · rw [next_outside first]
      exact ih rest (some c)

theorem Steady.of_mark (h : Steady s (some '?') a) : Steady s none a := by
  cases a with
  | nil => trivial
  | cons c a =>
    have same : openDateFormat none (c :: a) = openDateFormat (some '?') (c :: a) := rfl
    exact ⟨same ▸ h.1, h.2⟩

end

theorem unquoted_replaceNow (before : Option Char) (cs : List Char) (h : Unquoted (cs.takeWhile isFlat)) :
    Unquoted ((replaceFrom nowCall before 0 cs).takeWhile isFlat) := by
  revert h
  refine nowCall_replacesWords.induct (motive := fun before cs => Unquoted (cs.takeWhile isFlat) →
    Unquoted ((replaceFrom nowCall before 0 cs).takeWhile isFlat)) ?nil ?keep ?replace before cs
  case nil =>
    intro before h
    exact h
  case keep =>
    intro before c cs none ih h
    rw [replaceFrom, none]
    by_cases flat : isFlat c = true
    · rw [List.takeWhile_cons_of_pos flat] at h ⊢
      obtain ⟨first, h⟩ := List.forall_mem_cons.mp h
      exact List.forall_mem_cons.mpr ⟨first, ih h⟩
    · rw [List.takeWhile_cons_of_neg flat]
      exact List.forall_mem_nil _
  case replace =>
    intro before w rest value found nonempty _ _ _
    obtain ⟨_, rfl⟩ := nowCall_match found
    have split : currentTimestamp = "CURRENT_TIMESTAMP".toList ++ ['(', ')'] := by decide
    have flat : ∀ c ∈ "CURRENT_TIMESTAMP".toList, isFlat c = true := List.all_eq_true.mp (by decide)
    have bracket : ¬ isFlat '(' = true := by decide
    rw [replaceFrom_match nonempty found, split, List.append_assoc, List.takeWhile_append_of_pos flat,
      List.cons_append, List.takeWhile_cons_of_neg bracket, List.append_nil]
    exact (bare_name rfl (by decide)).unquoted

/-- A call of `DATE_FORMAT` that opens after the calls of `NOW` are respelled was there before. -/
theorem openDateFormat_replaceNow {before : Option Char} {c : Char} {cs gap inner : List Char}
    (h : openDateFormat before (c :: replaceFrom nowCall (some c) 0 cs) = some (gap, inner)) :
    ∃ old, openDateFormat before (c :: cs) = some (gap, old) ∧
      inner = replaceFrom nowCall (some '(') 0 old := by
  obtain ⟨start, name, named, blank, text⟩ := openDateFormat_eq_some_iff.mp h
  obtain ⟨first, word, rfl, _, letters⟩ := exists_cons_of_named named
  obtain ⟨rfl, tail⟩ := List.cons.inj text
  have tail : replaceFrom nowCall (some c) 0 cs = word ++ (gap ++ '(' :: inner) := tail
  have opening : IsOpening (c :: (word ++ (gap ++ ['(']))) := ⟨c :: word, gap, rfl, named, blank⟩
  have chain := dateFormatCall_findsCalls.chain _ opening
  have here : word ++ (gap ++ ['(']) <+: replaceFrom nowCall (some c) 0 cs := ⟨inner, by simp [tail]⟩
  obtain ⟨old, rfl⟩ := nowCall_replacesWords.prefix_of_replaceFrom chain here
  have unnamed : (gap ++ ['(']).any isNameChar = false := by
    refine List.any_eq_false.mpr fun x hx name => ?_
    rcases List.mem_append.mp hx with hx | hx
    · exact Bool.false_ne_true ((isSpace_of_isNameChar name).symm.trans (blank x hx))
    · rw [List.mem_singleton.mp hx] at name
      contradiction
  have quiet : Quiet nowCall (some c) (word ++ (gap ++ ['('])) old :=
    .append (nowCall_findsCalls.quiet_name letters) (nowCall_findsCalls.quiet_unnamed unnamed _)
  refine ⟨old, openDateFormat_eq_some_iff.mpr ⟨start, c :: word, named, blank, by simp⟩, ?_⟩
  rw [replaceFrom_quiet quiet] at tail
  have last : (word ++ (gap ++ ['('])).getLast?.or (some c) = some '(' := by simp
  rw [last, List.append_assoc, List.append_assoc] at tail
  exact (List.cons.inj (List.append_cancel_left (List.append_cancel_left tail))).2.symm

theorem steady_replaceNow {s : State} (proper : s.Proper) {before : Option Char} {cs : List Char}
    (h : Steady s before cs) : Steady s before (replaceFrom nowCall before 0 cs) := by
  revert s
  refine nowCall_replacesWords.induct (motive := fun before cs => ∀ {s : State}, s.Proper →
    Steady s before cs → Steady s before (replaceFrom nowCall before 0 cs)) ?nil ?keep ?replace before cs
  case nil =>
    intro before s _ h
    exact h
  case keep =>
    intro before c cs none ih s proper h
    rw [replaceFrom, none]
    refine ⟨fun found opens => ?_, ih (proper.next c) h.2⟩
    obtain ⟨old, before, inner⟩ := openDateFormat_replaceNow opens
    obtain ⟨outside, unquoted⟩ := h.1 _ before
    rw [inner]
    exact ⟨outside, unquoted_replaceNow _ old unquoted⟩
  case replace =>
    intro before w rest value found nonempty last ih s proper h
    have keeps := nowCall_keepsQuotes before w rest value found s proper
    obtain ⟨_, rfl⟩ := nowCall_match found
    rw [replaceFrom_match nonempty found]
    refine .append ?_ ?_
    · exact dateFormatCall_findsCalls.quiet_currentTimestamp (by decide) before _
    · rw [keeps, last, getLast?_or nonempty]
      have right := h.right
      rw [getLast?_or nonempty] at right
      exact ih (proper.after w) right

section

variable {value format w : List Char}

theorem IsLiteralCall.isLiteral (call : IsLiteralCall value format w) : IsLiteral format := by
  obtain ⟨_, _, _, _, _, _, _, _, _, _, _, _, _, literal⟩ := call
  exact literal

theorem IsLiteralCall.after (call : IsLiteralCall value format w) (unquoted : Unquoted value) :
    State.outside.after w = .outside := by
  obtain ⟨name, gap, a, b, c, d, rfl, named, hgap, ha, hb, hc, hd, literal⟩ := call
  have front : Unquoted (name ++ (gap ++ '(' :: (a ++ (value ++ (b ++ ',' :: c))))) := by
    intro x hx
    simp only [List.mem_append, List.mem_cons] at hx
    rcases hx with hx | hx | rfl | hx | hx | hx | rfl | hx
    · exact (bare_name named (by decide)).unquoted x hx
    · exact (bare_blank hgap).unquoted x hx
    · rfl
    · exact (bare_blank ha).unquoted x hx
    · exact unquoted x hx
    · exact (bare_blank hb).unquoted x hx
    · rfl
    · exact (bare_blank hc).unquoted x hx
  have back : Unquoted (d ++ [')']) := ((bare_blank hd).append (by decide)).unquoted
  have parts : name ++ (gap ++ '(' :: (a ++ (value ++ (b ++ ',' :: (c ++ (format ++ (d ++ [')']))))))) =
      name ++ (gap ++ '(' :: (a ++ (value ++ (b ++ ',' :: c)))) ++ (format ++ (d ++ [')'])) := by simp
  rw [parts, State.after_append, State.after_append, after_of_unquoted front, literal.after,
    after_of_unquoted back]

theorem after_exchanged (literal : IsLiteral format) (unquoted : Unquoted value) :
    State.outside.after (formatTimestamp ++ '(' :: format ++ [',', ' '] ++ value ++ [')']) = .outside := by
  have front : Unquoted (formatTimestamp ++ ['(']) := by decide
  have comma : Unquoted [',', ' '] := by decide
  have back : Unquoted ([',', ' '] ++ value ++ [')']) := (comma.append unquoted).append (by decide)
  have parts : formatTimestamp ++ '(' :: format ++ [',', ' '] ++ value ++ [')'] =
      formatTimestamp ++ ['('] ++ (format ++ ([',', ' '] ++ value ++ [')'])) := by simp
  rw [parts, State.after_append, State.after_append, after_of_unquoted front, literal.after,
    after_of_unquoted back]

theorem Steady.literalCall {s : State} {before : Option Char} {rest : List Char}
    (h : Steady s before (w ++ rest)) (start : wordMayStart before = true)
    (call : IsLiteralCall value format w) (flat : ∀ c ∈ value, isFlat c = true) :
    s = .outside ∧ Unquoted value := by
  obtain ⟨name, gap, a, b, c, d, rfl, named, hgap, ha, _⟩ := call
  obtain ⟨first, word, rfl, -⟩ := exists_cons_of_named named
  obtain ⟨outside, unquoted⟩ :=
    h.1 (gap, _) (openDateFormat_eq_some_iff.mpr ⟨start, first :: word, named, hgap, by simp; rfl⟩)
  have blank : ∀ c ∈ a, isFlat c = true := fun c hc => isFlat_of_isSpace (ha c hc)
  simp only [List.takeWhile_append_of_pos blank, List.takeWhile_append_of_pos flat] at unquoted
  exact ⟨outside, fun x hx => unquoted x (by simp [hx])⟩

end

theorem after_replaceLiteral {s : State} {before : Option Char} {cs : List Char} (h : Steady s before cs) :
    s.after (replaceFrom dateFormatLiteral before 0 cs) = s.after cs := by
  revert s
  refine dateFormatLiteral_replacesWords.induct (motive := fun before cs => ∀ {s : State},
    Steady s before cs → s.after (replaceFrom dateFormatLiteral before 0 cs) = s.after cs)
    ?nil ?keep ?replace before cs
  case nil =>
    intro before s _
    rfl
  case keep =>
    intro before c cs none ih s h
    rw [replaceFrom, none]
    exact ih h.2
  case replace =>
    intro before w rest value found nonempty _ ih s h
    obtain ⟨start, argument, format, flat, call, rfl⟩ := dateFormatLiteral_match found
    obtain ⟨rfl, unquoted⟩ := h.literalCall start call flat
    have right := h.right
    rw [getLast?_or nonempty] at right
    have closed := call.after unquoted
    rw [replaceFrom_match nonempty found, State.after_append, after_exchanged call.isLiteral unquoted,
      State.after_append, closed]
    exact ih (closed ▸ right)

/-- Respelling leaves open what was open before. -/
theorem after_respellDateFormat {s : State} (proper : s.Proper) {cs : List Char} (h : Steady s none cs) :
    s.after (respellDateFormat (respellNow cs)) = s.after cs := by
  have renamed := after_replaceFrom dateFormatCall_replacesWords dateFormatCall_keepsQuotes none
    (replaceAll dateFormatLiteral (respellNow cs)) proper
  have exchanged := after_replaceLiteral (steady_replaceNow proper h)
  exact renamed.trans (exchanged.trans (after_respellNow cs proper))

theorem after_openAtEnd {s : State} {cs : List Char} (h : Steady s none cs)
    (opens : occurs openAtEnd none cs = true) : s.after cs = .outside := by
  obtain ⟨lead, w, gap, rfl, start, ⟨name, blanks, rfl, named, blank⟩, hgap⟩ := occurs_openAtEnd opens
  have call : IsOpening (name ++ (blanks ++ ['('])) := ⟨name, blanks, rfl, named, blank⟩
  obtain ⟨first, word, rfl, -⟩ := exists_cons_of_named named
  have right := h.right
  rw [Option.or_none] at right
  have outside : s.after lead = .outside :=
    (right.1 (blanks, gap) (openDateFormat_eq_some_iff.mpr ⟨start, first :: word, named, blank, by simp⟩)).1
  rw [State.after_append, outside]
  exact after_of_unquoted (call.bare.append (bare_blank hgap)).unquoted

end SqlDialect.Fragment
