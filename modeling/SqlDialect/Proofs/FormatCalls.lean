import Mathlib.Data.List.Chain
import SqlDialect.Proofs.Delegation

/-!
Calls of `DATE_FORMAT` with a literal format. In one text there may be any number of them: each has its
arguments exchanged and its name replaced, and nothing else changes. Where the value is a tree between two
fragments, the call is compiled as if it stood in the tree. A text is taken apart at seams, across which no
call can reach.
-/
set_option autoImplicit false

namespace SqlDialect.Fragment

open Text

def isMiddle (c : Char) : Bool :=
  isSpace c || c == '('

def isTail (c : Char) : Bool :=
  isMiddle c || c == ')'

/-- Two characters that may be neighbours in a call. -/
def Joins (l r : Char) : Prop :=
  isNameChar l = true ∧ (isNameChar r = true ∨ isTail r = true) ∨ isMiddle l = true ∧ isTail r = true

/-- No call reaches from the one text into the other. -/
def Seam (a rest : List Char) : Prop :=
  ∀ l ∈ a.getLast?, ∀ r ∈ rest.head?, ¬ Joins l r

theorem isChain_call {name middle : List Char} {last : Char} (hname : ∀ c ∈ name, isNameChar c = true)
    (hmiddle : ∀ c ∈ middle, isMiddle c = true) (hlast : isTail last = true) :
    (name ++ (middle ++ [last])).IsChain Joins := by
  have tail {c : Char} (h : isMiddle c = true) : isTail c = true := by simp [isTail, h]
  have names : name.IsChain Joins :=
    (List.pairwise_of_forall_mem_list fun l hl r hr => .inl ⟨hname l hl, .inl (hname r hr)⟩).isChain
  have middles : middle.IsChain Joins :=
    (List.pairwise_of_forall_mem_list fun l hl r hr => .inr ⟨hmiddle l hl, tail (hmiddle r hr)⟩).isChain
  rw [List.isChain_append, List.isChain_append]
  refine ⟨names, ⟨middles, .singleton last, ?_⟩, ?_⟩
  · rintro l hl r ⟨⟩
    exact .inr ⟨hmiddle l (List.mem_of_getLast? hl), hlast⟩
  · intro l hl r hr
    have mem := List.mem_of_mem_head? hr
    refine .inl ⟨hname l (List.mem_of_getLast? hl), .inr ?_⟩
    rcases List.mem_append.mp mem with mem | mem
    · exact tail (hmiddle r mem)
    · rwa [List.mem_singleton.mp mem]

/-- A pattern that finds calls: words with a bracket that start with a given letter, its case aside, and whose
neighbours all join. -/
structure FindsCalls {α : Type} (p : Pattern α) (shape : List Char → Prop) (letter : Char) : Prop where
  finds : Finds p shape
  named : isNameChar letter = true
  held : ∀ cs, Holds shape cs → HoldsCall cs
  starts : ∀ w, shape w → ∃ c w', w = c :: w' ∧ c.toLower = letter
  chain : ∀ w, shape w → w.IsChain Joins
  bracket : ∀ w, shape w → '(' ∈ w

theorem exists_cons_of_map {name letters : List Char} {letter : Char}
    (h : name.map Char.toLower = letter :: letters) (rest : List Char) :
    ∃ c cs, name ++ rest = c :: cs ∧ c.toLower = letter := by
  obtain ⟨c, cs, rfl, hc, _⟩ := List.map_eq_cons_iff.mp h
  exact ⟨c, cs ++ rest, rfl, hc⟩

theorem nowCall_findsCalls : FindsCalls nowCall IsNowCall 'n' where
  finds := nowCall_finds
  named := by decide
  held _ := .inl
  starts := by
    rintro _ ⟨name, gap, rfl, hname, _⟩
    exact exists_cons_of_map hname _
  chain := by
    rintro _ ⟨name, gap, rfl, hname, hgap⟩
    have middle : ∀ c ∈ '(' :: gap, isMiddle c = true :=
      List.forall_mem_cons.mpr ⟨by decide, fun c hc => by simp [isMiddle, hgap c hc]⟩
    exact isChain_call (isNameChar_of_map hname (by decide)) middle (by decide)
  bracket := by
    rintro _ ⟨name, gap, rfl, _⟩
    simp

theorem dateFormatCall_findsCalls : FindsCalls dateFormatCall IsOpening 'd' where
  finds := dateFormatCall_finds
  named := by decide
  held _ := .inr
  starts := by
    rintro _ ⟨name, gap, rfl, hname, _⟩
    exact exists_cons_of_map hname _
  chain := by
    rintro _ ⟨name, gap, rfl, hname, hgap⟩
    have middle : ∀ c ∈ gap, isMiddle c = true := fun c hc => by simp [isMiddle, hgap c hc]
    exact isChain_call (isNameChar_of_map hname (by decide)) middle (by decide)
  bracket := by
    rintro _ ⟨name, gap, rfl, _⟩
    simp

section

variable {α : Type} {p : Pattern α} {shape : List Char → Prop} {letter : Char}
variable {before : Option Char} {a rest : List Char}

theorem FindsCalls.eq_none (h : FindsCalls p shape letter) {c : Char} (hc : c.toLower ≠ letter)
    (before : Option Char) (cs : List Char) : p before (c :: cs) = none := by
  rw [← Option.not_isSome_iff_eq_none, h.finds]
  rintro ⟨_, w, rest, hcs, hw⟩
  obtain ⟨first, w, rfl, hfirst⟩ := h.starts w hw
  cases hcs
  exact hc hfirst

theorem FindsCalls.quiet_append (h : FindsCalls p shape letter) (quiet : Quiet p before a [])
    (seam : Seam a rest) : Quiet p before a rest := by
  induction a generalizing before with
  | nil => trivial
  | cons c a ih =>
    have inner : Seam a rest := by
      intro l hl
      exact seam l (by rw [List.getLast?_cons, hl]; rfl)
    refine ⟨?_, ih quiet.2 inner⟩
    rw [← Option.not_isSome_iff_eq_none, h.finds]
    rintro ⟨hstart, w, after, htext, hw⟩
    rw [← List.cons_append, List.append_eq_append_iff] at htext
    have within (after : List Char) (hcs : c :: a = w ++ after) : False := by
      have found := (h.finds before (c :: a)).mpr ⟨hstart, w, after, hcs, hw⟩
      rw [← List.append_nil a, quiet.1] at found
      contradiction
    rcases htext with ⟨beyond, rfl, rfl⟩ | ⟨left, hcs, _⟩
    · cases beyond with
      | nil => exact within [] (by simp)
      | cons r beyond =>
        have joined := (List.isChain_append.mp (h.chain _ hw)).2.2
        obtain ⟨l, hl⟩ : ∃ l, (c :: a).getLast? = some l := ⟨_, List.getLast?_cons⟩
        exact seam l hl r rfl (joined l hl r rfl)
    · exact within left hcs

theorem FindsCalls.quiet_of_not_holds (h : FindsCalls p shape letter) (free : ¬ Holds shape a)
    (before : Option Char) : Quiet p before a [] := by
  rw [← occurs_iff_holds h.finds, Bool.not_eq_true] at free
  cases a with
  | nil => trivial
  | cons c a =>
    -- what stands before the text matters at its first character only, and can only prevent a match
    simp only [occurs, Bool.or_eq_false_iff, Option.isSome_eq_false_iff, Option.isNone_iff_eq_none] at free
    refine ⟨?_, quiet_of_occurs free.2⟩
    rw [List.append_nil, ← Option.not_isSome_iff_eq_none, h.finds]
    rintro ⟨_, found⟩
    have first := (h.finds none (c :: a)).mpr ⟨rfl, found⟩
    rw [free.1] at first
    contradiction

theorem FindsCalls.quiet_of_free (h : FindsCalls p shape letter) (free : ¬ HoldsCall a)
    (before : Option Char) : Quiet p before a [] :=
  h.quiet_of_not_holds (fun held => free (h.held a held)) before

theorem FindsCalls.quiet_of_no_bracket (h : FindsCalls p shape letter) (hno : '(' ∉ a) (before : Option Char) :
    Quiet p before a [] := by
  refine h.quiet_of_not_holds ?_ before
  rintro ⟨x, w, y, rfl, _, hw⟩
  exact hno (by simp [h.bracket w hw])

theorem FindsCalls.ne_letter (h : FindsCalls p shape letter) {c : Char} (unnamed : isNameChar c = false) :
    c.toLower ≠ letter := by
  rintro rfl
  rw [isNameChar_of_toLower h.named] at unnamed
  contradiction

theorem FindsCalls.quiet_unnamed (h : FindsCalls p shape letter) (unnamed : a.any isNameChar = false)
    (before : Option Char) : Quiet p before a rest := by
  induction a generalizing before with
  | nil => trivial
  | cons c a ih =>
    obtain ⟨hc, unnamed⟩ := Bool.or_eq_false_iff.mp unnamed
    exact ⟨h.eq_none (h.ne_letter hc) before _, ih unnamed _⟩

theorem FindsCalls.quiet_name (h : FindsCalls p shape letter) {first : Char} {word : List Char}
    (letters : ∀ c ∈ first :: word, isNameChar c = true) : Quiet p (some first) word rest := by
  induction word generalizing first with
  | nil => trivial
  | cons c word ih =>
    obtain ⟨hfirst, letters⟩ := List.forall_mem_cons.mp letters
    refine ⟨?_, ih letters⟩
    rw [← Option.not_isSome_iff_eq_none, h.finds]
    simp [wordMayStart, isWord_of_isNameChar hfirst]

/-- Another name is no call, whatever follows it. -/
theorem FindsCalls.quiet_other (h : FindsCalls p shape letter) {first : Char} {word : List Char}
    (letters : ∀ c ∈ first :: word, isNameChar c = true) (hfirst : first.toLower ≠ letter)
    (before : Option Char) : Quiet p before (first :: word) rest :=
  ⟨h.eq_none hfirst _ _, h.quiet_name letters⟩

end

theorem seam_of_left {a rest : List Char} {l : Char} (hl : a.getLast? = some l) (name : isNameChar l = false)
    (middle : isMiddle l = false) : Seam a rest := by
  intro x hx r _
  obtain rfl := Option.some.inj (hl.symm.trans hx)
  simp [Joins, name, middle]

theorem seam_of_right {a rest : List Char} (hl : ∀ l ∈ a.getLast?, isNameChar l = false)
    (hr : ∀ r ∈ rest.head?, isTail r = false) : Seam a rest := by
  intro l hmem r hr'
  simp [Joins, hl l hmem, hr r hr']

theorem exists_cons_of_named {name : List Char} (h : name.map Char.toLower = dateFormatName) :
    ∃ first word, name = first :: word ∧ first.toLower = 'd' ∧ ∀ c ∈ first :: word, isNameChar c = true := by
  cases name with
  | nil => contradiction
  | cons first word => exact ⟨first, word, rfl, (List.cons.inj h).1, isNameChar_of_map h (by decide)⟩

theorem isTail_of_isNameChar {c : Char} (h : isNameChar c = true) : isTail c = false := by
  have opening : c ≠ '(' := by
    rintro rfl
    contradiction
  have closing : c ≠ ')' := by
    rintro rfl
    contradiction
  simp [isTail, isMiddle, isSpace_of_isNameChar h, opening, closing]

theorem dateFormatLiteral_eq_none {before : Option Char} {cs : List Char}
    (h : dateFormatCall before cs = none) : dateFormatLiteral before cs = none := by
  simp only [dateFormatCall, Option.bind_eq_bind, Option.pure_def, Option.bind_eq_none_iff, reduceCtorEq] at h
  rw [dateFormatLiteral, Option.bind_eq_bind, Option.bind_eq_none_iff]
  exact fun found hfound => (h found hfound).elim

theorem quiet_dateFormatLiteral {before : Option Char} {a rest : List Char}
    (h : Quiet dateFormatCall before a rest) : Quiet dateFormatLiteral before a rest := by
  induction a generalizing before with
  | nil => trivial
  | cons c a ih => exact ⟨dateFormatLiteral_eq_none h.1, ih h.2⟩

/-- Text that holds no call, and after which a word may start. -/
structure IsLead (cs : List Char) : Prop where
  free : ¬ HoldsCall cs
  ends : wordMayStart cs.getLast? = true

instance (cs : List Char) : Decidable (IsLead cs) :=
  decidable_of_iff (¬ HoldsCall cs ∧ wordMayStart cs.getLast? = true)
    ⟨fun h => ⟨h.1, h.2⟩, fun h => ⟨h.free, h.ends⟩⟩

theorem IsLead.wordMayStart {cs : List Char} (h : IsLead cs) {before : Option Char}
    (hbefore : wordMayStart before = true) : wordMayStart (cs.getLast?.or before) = true := by
  have ends := h.ends
  cases hlast : cs.getLast? with
  | none => exact hbefore
  | some c => rwa [hlast] at ends

theorem head?_name {name : List Char} (h : name.map Char.toLower = dateFormatName) (rest : List Char) :
    ∀ r ∈ (name ++ rest).head?, isTail r = false := by
  obtain ⟨first, word, rfl, _, letters⟩ := exists_cons_of_named h
  rintro _ ⟨⟩
  exact isTail_of_isNameChar (letters _ List.mem_cons_self)

theorem head?_literal {format : List Char} (h : IsLiteral format) (rest : List Char) :
    ∀ r ∈ (format ++ rest).head?, isTail r = false := by
  obtain ⟨quote, tail, rfl, hquote, _⟩ := h.exists_cons
  rintro r ⟨⟩
  rcases hquote with rfl | rfl <;> decide

section

variable {α : Type} {p : Pattern α} {shape : List Char → Prop} {letter : Char} {rest : List Char}

theorem FindsCalls.quiet_lead (h : FindsCalls p shape letter) {lead : List Char} (isLead : IsLead lead)
    (before : Option Char) (hrest : ∀ r ∈ rest.head?, isTail r = false) : Quiet p before lead rest := by
  refine h.quiet_append (h.quiet_of_free isLead.free before) (seam_of_right (fun l hl => ?_) hrest)
  rw [Bool.eq_false_iff]
  intro name
  have ends := isLead.ends
  rw [Option.mem_def.mp hl, wordMayStart, isWord_of_isNameChar name] at ends
  contradiction

theorem FindsCalls.quiet_literal (h : FindsCalls p shape letter) {format : List Char}
    (hformat : IsLiteral format) (free : ¬ Holds shape format) (before : Option Char) :
    Quiet p before format rest := by
  obtain ⟨quote, tail, _, hquote, hlast⟩ := hformat.exists_cons
  refine h.quiet_append (h.quiet_of_not_holds free before) (seam_of_left hlast ?_ ?_)
  all_goals rcases hquote with rfl | rfl <;> decide

theorem FindsCalls.quiet_formatTimestamp (h : FindsCalls p shape letter) (other : 'f' ≠ letter)
    {opening : List Char} (unnamed : opening.any isNameChar = false) (before : Option Char) :
    Quiet p before (formatTimestamp ++ opening) rest := by
  have letters : ∀ c ∈ formatTimestamp, isNameChar c = true := List.all_eq_true.mp (by decide)
  exact .append (h.quiet_other letters other before) (h.quiet_unnamed unnamed _)

theorem FindsCalls.quiet_swapped (h : FindsCalls p shape letter) (other : 'f' ≠ letter)
    {value format : List Char} (hvalue : '(' ∉ value) (hformat : IsLiteral format)
    (free : ¬ Holds shape format) (before : Option Char) :
    Quiet p before ((formatTimestamp ++ ['(']) ++ (format ++ ([',', ' '] ++ value ++ [')']))) rest := by
  refine .append ?name (.append (h.quiet_literal hformat free _) ?value)
  case name => exact h.quiet_formatTimestamp other (by decide) before
  case value =>
    refine h.quiet_append (h.quiet_of_no_bracket (by simp [hvalue]) _) ?_
    exact seam_of_left List.getLast?_concat (by decide) (by decide)

theorem FindsCalls.quiet_arguments (h : FindsCalls p shape letter) {value format : List Char}
    (hvalue : '(' ∉ value) (hformat : IsLiteral format) (free : ¬ HoldsCall format) (before : Option Char) :
    Quiet p before ((value ++ [',', ' ']) ++ (format ++ [')'])) rest := by
  refine .append ?value (.append (h.quiet_literal hformat (mt (h.held format) free) _) ?closing)
  case value =>
    refine h.quiet_append (h.quiet_of_no_bracket (by simp [hvalue]) before) (seam_of_right ?_ ?_)
    · have last : (value ++ [',', ' ']).getLast? = some ' ' := by simp
      rw [last]
      rintro l ⟨⟩
      decide
    · simpa only [List.append_assoc] using head?_literal hformat _
  case closing =>
    exact h.quiet_append (h.quiet_of_no_bracket (by decide) _) (seam_of_left rfl (by decide) (by decide))

end

theorem quiet_nowCall_opening {lead name rest : List Char} (isLead : IsLead lead)
    (named : name.map Char.toLower = dateFormatName) (before : Option Char) :
    Quiet nowCall before (lead ++ (name ++ ['('])) rest := by
  have calls := nowCall_findsCalls
  refine .append (calls.quiet_lead isLead before ?_) ?_
  · simpa only [List.append_assoc] using head?_name named _
  · obtain ⟨first, word, rfl, hfirst, letters⟩ := exists_cons_of_named named
    exact .append (calls.quiet_other letters (by simp [hfirst]) _) (calls.quiet_unnamed (by decide) _)

/-- A call of `DATE_FORMAT` with a flat value and a literal format, and the text before it. -/
structure FormatCall where
  lead : List Char
  name : List Char
  value : List Char
  format : List Char
  isLead : IsLead lead := by decide
  named : name.map Char.toLower = "date_format".toList := by decide
  value_ne : value ≠ [] := by decide
  no_comma : ',' ∉ value := by decide
  no_opening : '(' ∉ value := by decide
  no_closing : ')' ∉ value := by decide
  value_first : value.head?.any isSpace = false := by decide
  value_last : value.getLast?.any isSpace = false := by decide
  literal : IsLiteral format := by decide
  format_free : ¬ HoldsCall format := by decide

namespace FormatCall

def call (c : FormatCall) : List Char :=
  c.name ++ "(".toList ++ c.value ++ ", ".toList ++ c.format ++ ")".toList

def swapped (c : FormatCall) : List Char :=
  "FORMAT_TIMESTAMP(".toList ++ c.format ++ ", ".toList ++ c.value ++ ")".toList

def source (c : FormatCall) : List Char :=
  c.lead ++ c.call

def target (c : FormatCall) : List Char :=
  c.lead ++ c.swapped

theorem call_eq (c : FormatCall) :
    c.call = (c.name ++ ['(']) ++ ((c.value ++ [',', ' ']) ++ (c.format ++ [')'])) := by
  simp [call]

theorem swapped_eq (c : FormatCall) :
    c.swapped = (formatTimestamp ++ ['(']) ++ (c.format ++ ([',', ' '] ++ c.value ++ [')'])) := by
  have opening : "FORMAT_TIMESTAMP(".toList = formatTimestamp ++ ['('] := by decide
  have comma : ", ".toList = [',', ' '] := by decide
  have closing : ")".toList = [')'] := by decide
  change "FORMAT_TIMESTAMP(".toList ++ c.format ++ ", ".toList ++ c.value ++ ")".toList = _
  rw [opening, comma, closing]
  simp only [List.append_assoc]

theorem quiet_source (c : FormatCall) (before : Option Char) (rest : List Char) :
    Quiet nowCall before c.source rest := by
  rw [source, call_eq, ← List.append_assoc]
  exact .append (quiet_nowCall_opening c.isLead c.named before)
    (nowCall_findsCalls.quiet_arguments c.no_opening c.literal c.format_free _)

theorem quiet_target (c : FormatCall) (before : Option Char) (rest : List Char) :
    Quiet dateFormatCall before c.target rest := by
  have calls := dateFormatCall_findsCalls
  rw [target, swapped_eq]
  refine .append (calls.quiet_lead c.isLead before ?_)
    (calls.quiet_swapped (by decide) c.no_opening c.literal (mt (calls.held c.format) c.format_free) _)
  rintro r ⟨⟩
  decide

theorem dateFormatLiteral_call (c : FormatCall) {before : Option Char} (h : wordMayStart before = true)
    (rest : List Char) : dateFormatLiteral before (c.call ++ rest) = some ⟨c.call.length, c.swapped⟩ := by
  have flat : ∀ x ∈ c.value, isFlat x = true := by
    intro x hx
    have comma := ne_of_mem_of_not_mem hx c.no_comma
    have opening := ne_of_mem_of_not_mem hx c.no_opening
    have closing := ne_of_mem_of_not_mem hx c.no_closing
    simp [isFlat, comma, opening, closing]
  have comma : ¬ isFlat ',' = true := by decide
  have opened : openDateFormat before (c.call ++ rest) =
      some ([], c.value ++ ',' :: ' ' :: (c.format ++ ')' :: rest)) :=
    openDateFormat_eq_some_iff.mpr ⟨h, c.name, c.named, by simp [Blank], by simp [call]⟩
  have argument : literalArgument (',' :: ' ' :: (c.format ++ ')' :: rest)) = some (c.format, rest) :=
    literalArgument_eq_some_iff.mpr ⟨[], [' '], [], by decide, by decide, by decide, c.literal, rfl⟩
  rw [dateFormatLiteral, opened]
  simp only [Option.bind_eq_bind, Option.bind_some, List.takeWhile_append_of_pos flat,
    List.takeWhile_cons_of_neg comma, List.dropWhile_append_of_pos flat, List.dropWhile_cons_of_neg comma,
    List.append_nil, trimArgument_eq_self c.value_ne c.value_first c.value_last, argument, Option.pure_def,
    Match.upTo_eq rfl, swapped_eq, List.append_assoc, List.cons_append, List.nil_append]

/-- The first pass exchanges the arguments of a call and goes on after it. -/
theorem replaceFrom_source (c : FormatCall) {before : Option Char} (h : wordMayStart before = true)
    (rest : List Char) :
    replaceFrom dateFormatLiteral before 0 (c.source ++ rest) =
      c.target ++ replaceFrom dateFormatLiteral (some ')') 0 rest := by
  have quiet : Quiet dateFormatCall before c.lead (c.call ++ rest) := by
    refine dateFormatCall_findsCalls.quiet_lead c.isLead before ?_
    simpa only [call_eq, List.append_assoc] using head?_name c.named _
  have last : c.call.getLast? = some ')' := by
    rw [call_eq, ← List.append_assoc, ← List.append_assoc]
    exact List.getLast?_concat
  have nonempty : c.call ≠ [] := by simp [call]
  rw [source, target, List.append_assoc, List.append_assoc, replaceFrom_quiet (quiet_dateFormatLiteral quiet),
    replaceFrom_match nonempty (c.dateFormatLiteral_call (c.isLead.wordMayStart h) rest), last]

end FormatCall

theorem replaceFrom_calls {last : List Char} (free : ¬ HoldsCall last) (calls : List FormatCall)
    {before : Option Char} (h : wordMayStart before = true) :
    replaceFrom dateFormatLiteral before 0 (calls.flatMap FormatCall.source ++ last) =
      calls.flatMap FormatCall.target ++ last := by
  induction calls generalizing before with
  | nil =>
    have quiet := dateFormatCall_findsCalls.quiet_of_free free before
    exact replaceFrom_eq_self (quiet_dateFormatLiteral quiet)
  | cons c calls ih =>
    rw [List.flatMap_cons, List.flatMap_cons, List.append_assoc, List.append_assoc, c.replaceFrom_source h,
      ih (by decide)]

variable {P : Type}

theorem respellDateFormat_eq_self {cs : List Char} (h : Quiet dateFormatCall none cs []) :
    respellDateFormat cs = cs := by
  rw [respellDateFormat, replaceAll, replaceAll, replaceFrom_eq_self (quiet_dateFormatLiteral h),
    replaceFrom_eq_self h]

theorem respell_single (f : String) :
    respell [f] ([] : List P) = Piece.ofText (String.ofList (respellDateFormat (respellNow f.toList))) := by
  simp only [respell, List.map_cons, List.map_nil, List.any_cons, List.any_nil, Bool.or_false]
  split
  · simp [interleave]
  next none =>
    have quiet := quiet_of_occurs (Bool.eq_false_iff.mpr none)
    simp [interleave, respellDateFormat_eq_self quiet]

/-- Any number of calls with a literal format, and texts without calls around them: the arguments of each
call are exchanged and its name is replaced, and nothing else changes. -/
theorem respell_calls (calls : List FormatCall) (last : List Char) (free : ¬ HoldsCall last) :
    respell [String.ofList (calls.flatMap FormatCall.source ++ last)] ([] : List P) =
      Piece.ofText (String.ofList (calls.flatMap FormatCall.target ++ last)) := by
  have now : respellNow (calls.flatMap FormatCall.source ++ last) =
      calls.flatMap FormatCall.source ++ last :=
    replaceFrom_eq_self
      (.flatMap FormatCall.quiet_source (nowCall_findsCalls.quiet_of_free free) calls none)
  have swapped : replaceAll dateFormatLiteral (calls.flatMap FormatCall.source ++ last) =
      calls.flatMap FormatCall.target ++ last :=
    replaceFrom_calls free calls rfl
  have renamed : replaceAll dateFormatCall (calls.flatMap FormatCall.target ++ last) =
      calls.flatMap FormatCall.target ++ last :=
    replaceFrom_eq_self
      (.flatMap FormatCall.quiet_target (dateFormatCall_findsCalls.quiet_of_free free) calls none)
  rw [respell_single, String.toList_ofList, now, respellDateFormat, swapped, renamed]

def adjacentCalls : List FormatCall :=
  [{ lead := "at ".toList
     name := "Date_Format".toList
     value := "e.day".toList
     format := "'%Y, (\\'%m\\')'".toList },
   { lead := []
     name := "DATE_FORMAT".toList
     value := "a b".toList
     format := "\"it's )\"".toList }]

theorem respell_calls_adjacent :
    ¬ HoldsCall ", snow()".toList ∧
      respell ["at Date_Format(e.day, '%Y, (\\'%m\\')')DATE_FORMAT(a b, \"it's )\"), snow()"] ([] : List Nat) =
        [.text "at FORMAT_TIMESTAMP('%Y, (\\'%m\\')', e.day)FORMAT_TIMESTAMP(\"it's )\", a b), snow()"] :=
  have free : ¬ HoldsCall ", snow()".toList := by decide
  ⟨free, respell_calls adjacentCalls ", snow()".toList free⟩

section

variable {pre format rest : List Char}

theorem settled_iff (f : String) : Settled f ↔ ¬ HoldsCall f.toList := by
  rw [Settled, holdsCall_iff, not_or, Bool.not_eq_true, Bool.not_eq_true]

variable {name : List Char} (named : name.map Char.toLower = dateFormatName)

include named

theorem openDateFormat_opening {before : Option Char} (start : wordMayStart before = true) :
    openDateFormat before (name ++ ['(']) = some ([], []) :=
  openDateFormat_eq_some_iff.mpr ⟨start, name, named, by decide, rfl⟩

theorem respellDateFormat_opening (lead : IsLead pre) :
    respellDateFormat (pre ++ (name ++ ['('])) = pre ++ (formatTimestamp ++ ['(']) := by
  have calls := dateFormatCall_findsCalls
  have start : wordMayStart (pre.getLast?.or none) = true := lead.wordMayStart rfl
  have quiet : Quiet dateFormatCall none pre (name ++ ['(']) :=
    calls.quiet_lead lead none (head?_name named _)
  have found : dateFormatCall (pre.getLast?.or none) (name ++ ['('] ++ []) =
      some ⟨(name ++ ['(']).length, formatTimestamp ++ ['(']⟩ :=
    dateFormatCall_eq_some_iff.mpr ⟨start, name, [], [], named, by decide, by simp, by simp⟩
  have renamed : replaceAll dateFormatCall (pre ++ (name ++ ['('])) = pre ++ (formatTimestamp ++ ['(']) := by
    have last := replaceFrom_match (by simp) found
    rw [List.append_nil] at last
    rw [replaceAll, replaceFrom_quiet quiet, last, replaceFrom, List.append_nil]
  have valueless : dateFormatLiteral (pre.getLast?.or none) (name ++ ['(']) = none := by
    rw [dateFormatLiteral, openDateFormat_opening named start]
    rfl
  have exchanged : replaceAll dateFormatLiteral (pre ++ (name ++ ['('])) = pre ++ (name ++ ['(']) := by
    refine replaceFrom_eq_self (.append (quiet_dateFormatLiteral (by simpa using quiet)) ?_)
    obtain ⟨first, word, rfl, _, letters⟩ := exists_cons_of_named named
    have inner : Quiet dateFormatCall (some first) (word ++ ['(']) [] :=
      .append (calls.quiet_name letters) (calls.quiet_unnamed (by decide) _)
    exact ⟨by simpa using valueless, quiet_dateFormatLiteral inner⟩
  rw [respellDateFormat, exchanged, renamed]

/-- Where the value is the only parameter it moves behind the format. -/
theorem respell_around (lead : IsLead pre) (literal : IsLiteral format) (free : ¬ HoldsCall format)
    (hrest : ¬ HoldsCall rest) {head tail : String} (hhead : head.toList = pre ++ (name ++ ['(']))
    (htail : tail.toList = [',', ' '] ++ (format ++ [')']) ++ rest) (p : P) :
    respell [head, tail] [p] =
      [.text (String.ofList (pre ++ (formatTimestamp ++ ['(']))), .text (String.ofList (format ++ [',', ' '])),
        .param p, .text (String.ofList (')' :: rest))] := by
  have start : wordMayStart (pre.getLast?.or none) = true := lead.wordMayStart rfl
  have now_head : respellNow (pre ++ (name ++ ['('])) = pre ++ (name ++ ['(']) :=
    replaceFrom_eq_self (quiet_nowCall_opening lead named none)
  have now_tail : respellNow ([',', ' '] ++ (format ++ [')']) ++ rest) =
      [',', ' '] ++ (format ++ [')']) ++ rest :=
    replaceFrom_eq_self (.append (nowCall_findsCalls.quiet_arguments List.not_mem_nil literal free none)
      (nowCall_findsCalls.quiet_of_free hrest _))
  have opening : occurs openAtEnd none (pre ++ (name ++ ['('])) = true := by
    refine occurs_iff.mpr ⟨pre, name ++ ['('], rfl, ?_⟩
    rw [openAtEnd, openDateFormat_opening named start]
    rfl
  have held : hasDateFormat (pre ++ (name ++ ['('])) = true := by
    have shape : IsOpening (name ++ ['(']) := ⟨name, [], rfl, named, by decide⟩
    exact (occurs_iff_holds dateFormatCall_finds _).mpr ⟨pre, _, [], by simp, lead.ends, shape⟩
  have argument : literalArgument ([',', ' '] ++ (format ++ [')']) ++ rest) = some (format, rest) :=
    literalArgument_eq_some_iff.mpr ⟨[], [' '], [], by decide, by decide, by decide, literal, by simp⟩
  have unchanged : respellDateFormat rest = rest :=
    respellDateFormat_eq_self (dateFormatCall_findsCalls.quiet_of_free hrest none)
  simp only [respell, List.map_cons, List.map_nil, hhead, htail, now_head, now_tail, List.any_cons, held,
    Bool.true_or, if_true, swapAround, opening, argument, Option.bind_eq_bind, Option.bind_some,
    Option.pure_def, Option.getD_some, respellDateFormat_opening named lead, unchanged]

end

end SqlDialect.Fragment

namespace SqlDialect.Dialect

open Piece Fragment

theorem compile_around {d : Dialect} {n : Node} {front ps back : List Piece}
    (h : d.pieces n = front ++ ps ++ back) (hfront : bound front = []) (hback : bound back = []) :
    (d.compile n).sql = (d.write {} front).sql ++ (d.write {} ps).sql ++ (d.write {} back).sql ∧
      (d.compile n).params = (d.write {} ps).params := by
  have written : d.write {} (d.pieces n) =
      ⟨(d.write {} front).sql ++ (d.write {} ps).sql ++ (d.write {} back).sql, (d.write {} ps).params⟩ := by
    rw [h, write_append, write_append, d.write_of_unbound hback, d.write_of_unbound hfront]
    simp [write_eq]
  rw [d.compile_eq_write, written]
  exact ⟨rfl, rfl⟩

theorem pieces_raw (d : Dialect) (fs : List String) (ns : List Node) :
    d.pieces (.raw fs ns) = (d.respell fs (ns.map d.pieces)).flatMap rawPiece :=
  d.pieces_mk (.raw ⟨fs, ns⟩)

section

variable {pre f rest : String}

theorem pieces_raw_format (p : Node) (lead : IsLead pre.toList) (literal : IsLiteral f.toList)
    (free : ¬ HoldsCall f.toList) (hrest : ¬ HoldsCall rest.toList) :
    bigQuery.pieces (.raw [pre ++ "DATE_FORMAT(", ", " ++ f ++ ")" ++ rest] [p]) =
      [.text (pre ++ "FORMAT_TIMESTAMP("), .text (f ++ ", ")] ++ bigQuery.pieces p ++ [.text (")" ++ rest)] := by
  have named : "DATE_FORMAT".toList.map Char.toLower = dateFormatName := by decide
  have head : (pre ++ "DATE_FORMAT(").toList = pre.toList ++ ("DATE_FORMAT".toList ++ ['(']) :=
    String.toList_append
  have tail : (", " ++ f ++ ")" ++ rest).toList = [',', ' '] ++ (f.toList ++ [')']) ++ rest.toList := by
    simp
  have opening : String.ofList (pre.toList ++ (formatTimestamp ++ ['('])) = pre ++ "FORMAT_TIMESTAMP(" := by
    have name : String.ofList (formatTimestamp ++ ['(']) = "FORMAT_TIMESTAMP(" := by decide
    rw [String.ofList_append, String.ofList_toList, name]
  have comma : String.ofList (f.toList ++ [',', ' ']) = f ++ ", " := by
    rw [String.ofList_append, String.ofList_toList]
  have closing : String.ofList (')' :: rest.toList) = ")" ++ rest := by
    apply String.toList_injective
    simp
  have respelled := respell_around named lead literal free hrest head tail (bigQuery.pieces p)
  rw [opening, comma, closing] at respelled
  have pieces := (pieces_raw bigQuery _ [p]).trans (congrArg (List.flatMap rawPiece) respelled)
  simpa [rawPiece] using pieces

theorem pieces_call_format (p : Node) (literal : IsLiteral f.toList) (free : ¬ HoldsCall f.toList) :
    bigQuery.pieces (.call "DATE_FORMAT" [p, .rawSql f]) =
      [.text "FORMAT_TIMESTAMP", .text "(", .text f, .text ", "] ++ bigQuery.pieces p ++ [.text ")"] := by
  have settled : ∀ g ∈ [f], Settled g := by
    rintro g (_ | ⟨_, ⟨⟩⟩)
    exact (settled_iff f).mpr free
  have nonempty : f.isEmpty = false := by
    obtain ⟨quote, tail, hf, _⟩ := literal.exists_cons
    rw [Bool.eq_false_iff, Ne, String.isEmpty_iff]
    rintro rfl
    contradiction
  have format : bigQuery.pieces (.rawSql f) = [.text f] := by
    have pieces := (pieces_raw bigQuery [f] []).trans
      (congrArg (List.flatMap rawPiece) (respell_of_settled settled _))
    simpa [Node.rawSql, interleave, Piece.ofText, nonempty, rawPiece] using pieces
  have rule : bigQuery.callRule "DATE_FORMAT" = .swap "FORMAT_TIMESTAMP" := by decide
  have pieces : bigQuery.pieces (.call "DATE_FORMAT" [p, .rawSql f]) =
      bigQuery.call "DATE_FORMAT" [bigQuery.pieces p, bigQuery.pieces (.rawSql f)] :=
    bigQuery.pieces_mk _
  rw [pieces, format, call, rule]
  rfl

end

/-- A call in raw text whose value stands between two fragments is compiled as the call in the tree is,
whatever the value is: the format comes first, and the text around the call is kept. -/
theorem compile_raw_format (p : Node) (pre f rest : String) (lead : IsLead pre.toList)
    (literal : IsLiteral f.toList) (free : ¬ HoldsCall f.toList) (hrest : ¬ HoldsCall rest.toList) :
    let raw := bigQuery.compile (.raw [pre ++ "DATE_FORMAT(", ", " ++ f ++ ")" ++ rest] [p])
    let call := bigQuery.compile (.call "DATE_FORMAT" [p, .rawSql f])
    raw.sql = pre ++ call.sql ++ rest ∧ raw.params = call.params := by
  intro raw call
  obtain ⟨rawSql, rawParams⟩ :=
    compile_around (pieces_raw_format p lead literal free hrest) rfl rfl
  obtain ⟨callSql, callParams⟩ :=
    compile_around (pieces_call_format p literal free) rfl rfl
  refine ⟨?_, rawParams.trans callParams.symm⟩
  rw [rawSql, callSql]
  simp [write, writePiece, String.append_assoc]

def respelledValue : Node :=
  .binary (.raw ["date_format(", ", \"%d\")"] [.val (.int 1)]) "+" (.call "now" [])

theorem compile_raw_format_respelled :
    IsLead "x = ".toList ∧ IsLiteral "'it\\'s, )'".toList ∧ ¬ HoldsCall "'it\\'s, )'".toList ∧
      ¬ HoldsCall " or snow()".toList ∧
      let raw := bigQuery.compile (.raw ["x = DATE_FORMAT(", ", 'it\\'s, )') or snow()"] [respelledValue])
      raw.sql =
          "x = FORMAT_TIMESTAMP('it\\'s, )', FORMAT_TIMESTAMP(\"%d\", ?) + CURRENT_TIMESTAMP()) or snow()" ∧
        raw.params = [.int 1] := by
  have lead : IsLead "x = ".toList := by decide
  have literal : IsLiteral "'it\\'s, )'".toList := by decide
  have free : ¬ HoldsCall "'it\\'s, )'".toList := by decide
  have hrest : ¬ HoldsCall " or snow()".toList := by decide
  obtain ⟨sql, params⟩ :=
    compile_raw_format respelledValue "x = " "'it\\'s, )'" " or snow()" lead literal free hrest
  rw [bigQuery.compile_eq_write (.call _ _)] at sql params
  exact ⟨lead, literal, free, hrest, sql.trans (by decide), params.trans rfl⟩

end SqlDialect.Dialect
