import SqlDialect.Fragment

set_option autoImplicit false

namespace SqlDialect.Text

theorem afterName_eq_some_iff {name cs rest : List Char} :
    afterName name cs = some rest ↔ ∃ found, cs = found ++ rest ∧ found.map foldCase = name := by
  constructor
  · intro h
    fun_induction afterName name cs with
    | case1 cs =>
      cases h
      exact ⟨[], rfl, rfl⟩
    | case2 => contradiction
    | case3 ns c cs ih =>
      obtain ⟨found, rfl, rfl⟩ := ih h
      exact ⟨c :: found, rfl, rfl⟩
    | case4 => contradiction
  · rintro ⟨found, rfl, rfl⟩
    induction found with
    | nil => rfl
    | cons c found ih => simpa [afterName] using ih

/-- A name none of whose letters is folded to from outside of ASCII. -/
def IsAsciiName (name : List Char) : Prop :=
  ∀ n ∈ name, n ∉ ['s', 'k', 'ſ', 'K']

instance (name : List Char) : Decidable (IsAsciiName name) :=
  List.decidableBAll (fun n => n ∉ ['s', 'k', 'ſ', 'K']) name

theorem foldCase_eq_iff {c n : Char} (h : n ∉ ['s', 'k', 'ſ', 'K']) :
    foldCase c = n ↔ c.toLower = n := by
  simp only [List.mem_cons, List.not_mem_nil, or_false, not_or] at h
  obtain ⟨hs, hk, hlong, hkelvin⟩ := h
  unfold foldCase
  split
  next long =>
    subst long
    exact ⟨fun e => absurd e.symm hs, fun e => absurd e.symm hlong⟩
  next =>
    split
    next kelvin =>
      subst kelvin
      exact ⟨fun e => absurd e.symm hk, fun e => absurd e.symm hkelvin⟩
    next => exact Iff.rfl

theorem map_foldCase_eq_iff {name : List Char} (h : IsAsciiName name) {found : List Char} :
    found.map foldCase = name ↔ found.map Char.toLower = name := by
  induction found generalizing name with
  | nil => exact Iff.rfl
  | cons c found ih =>
    cases name with
    | nil => simp
    | cons n name =>
      obtain ⟨hn, hname⟩ := List.forall_mem_cons.mp h
      simp only [List.map_cons, List.cons.injEq, foldCase_eq_iff hn, ih hname]

theorem toLower_eq_self {c : Char} (h : c.isUpper = false) : c.toLower = c :=
  dif_neg (of_decide_eq_false h)

def isNameChar (c : Char) : Bool :=
  c.isAlpha || c == '_'

theorem isNameChar_of_toLower {c : Char} (h : isNameChar c.toLower = true) : isNameChar c = true := by
  by_cases upper : c.isUpper = true
  · change (c.isUpper || c.isLower || c == '_') = true
    simp [upper]
  · rwa [toLower_eq_self (by simpa using upper)] at h

theorem isNameChar_of_map {found name : List Char} (h : found.map Char.toLower = name)
    (letters : name.all isNameChar = true) : ∀ c ∈ found, isNameChar c = true := by
  intro c hc
  subst h
  exact isNameChar_of_toLower (List.all_eq_true.mp letters _ (List.mem_map_of_mem hc))

theorem isNameChar_range {c : Char} (h : isNameChar c = true) :
    65 ≤ c.toNat ∧ c.toNat ≤ 90 ∨ 95 ≤ c.toNat ∧ c.toNat ≤ 122 := by
  change (decide (65 ≤ c.val ∧ c.val ≤ 90) || decide (97 ≤ c.val) && decide (c.val ≤ 122) || c == '_') =
    true at h
  have cases : (65 ≤ c.toNat ∧ c.toNat ≤ 90 ∨ 97 ≤ c.toNat ∧ c.toNat ≤ 122) ∨ c = '_' := by
    simpa [UInt32.le_iff_toNat_le] using h
  rcases cases with letter | rfl
  · omega
  · decide

theorem isSpace_of_isNameChar {c : Char} (h : isNameChar c = true) : isSpace c = false := by
  have range := isNameChar_range h
  simp [isSpace]
  omega

theorem isWord_of_isNameChar {c : Char} (h : isNameChar c = true) : isWord c = true := by
  have range := isNameChar_range h
  rw [isWord, if_pos (by omega)]
  simp only [isNameChar, Bool.or_eq_true] at h
  rcases h with letter | underscore
  · simp [Char.isAlphanum, letter]
  · simp [underscore]

theorem afterWord_eq_some_iff {name : List Char} (h : IsAsciiName name) {before : Option Char}
    {cs rest : List Char} :
    afterWord name before cs = some rest ↔
      wordMayStart before = true ∧ ∃ found, cs = found ++ rest ∧ found.map Char.toLower = name := by
  simp only [afterWord, Option.ite_none_right_eq_some, afterName_eq_some_iff, map_foldCase_eq_iff h]

theorem afterChar_eq_some_iff {c : Char} {cs rest : List Char} :
    afterChar c cs = some rest ↔ cs = c :: rest := by
  cases cs with
  | nil => simp [afterChar]
  | cons x cs => simp [afterChar]

def Blank (cs : List Char) : Prop :=
  ∀ c ∈ cs, isSpace c = true

instance (cs : List Char) : Decidable (Blank cs) :=
  List.decidableBAll (isSpace · = true) cs

theorem blank_takeWhile (cs : List Char) : Blank (cs.takeWhile isSpace) :=
  List.all_eq_true.mp List.all_takeWhile

theorem takeWhile_skipSpace (cs : List Char) : cs.takeWhile isSpace ++ skipSpace cs = cs :=
  List.takeWhile_append_dropWhile

theorem skipSpace_append {gap : List Char} (h : Blank gap) {c : Char} (hc : isSpace c = false)
    (rest : List Char) : skipSpace (gap ++ c :: rest) = c :: rest := by
  rw [skipSpace, List.dropWhile_append_of_pos h, List.dropWhile_cons_of_neg (by simp [hc])]

theorem takeWhile_append {gap : List Char} (h : Blank gap) {c : Char} (hc : isSpace c = false)
    (rest : List Char) : (gap ++ c :: rest).takeWhile isSpace = gap := by
  rw [List.takeWhile_append_of_pos h, List.takeWhile_cons_of_neg (by simp [hc]), List.append_nil]

theorem afterChar_skipSpace_iff {c : Char} (hc : isSpace c = false) {cs rest : List Char} :
    afterChar c (skipSpace cs) = some rest ↔ ∃ gap, Blank gap ∧ cs = gap ++ c :: rest := by
  rw [afterChar_eq_some_iff]
  constructor
  · intro h
    exact ⟨_, blank_takeWhile cs, by rw [← h, takeWhile_skipSpace]⟩
  · rintro ⟨gap, hgap, rfl⟩
    exact skipSpace_append hgap hc rest

theorem Match.upTo_eq {α : Type} {cs found rest : List Char} (h : cs = found ++ rest) (value : α) :
    Match.upTo cs rest value = ⟨found.length, value⟩ := by
  simp [Match.upTo, h]

theorem getLast?_cons_or (c : Char) (cs : List Char) (before : Option Char) :
    (c :: cs).getLast?.or before = cs.getLast?.or (some c) := by
  rw [List.getLast?_cons]
  cases cs.getLast? <;> rfl

theorem occurs_iff {α : Type} {p : Pattern α} {before : Option Char} {cs : List Char} :
    occurs p before cs = true ↔
      ∃ x y, cs = x ++ y ∧ (p (x.getLast?.or before) y).isSome = true := by
  induction cs generalizing before with
  | nil =>
    simp only [occurs, List.nil_eq_append_iff]
    constructor
    · intro h
      exact ⟨[], [], ⟨rfl, rfl⟩, h⟩
    · rintro ⟨_, _, ⟨rfl, rfl⟩, h⟩
      exact h
  | cons c cs ih =>
    rw [occurs, Bool.or_eq_true, ih]
    constructor
    · rintro (h | ⟨x, y, rfl, h⟩)
      · exact ⟨[], c :: cs, rfl, h⟩
      · exact ⟨c :: x, y, rfl, by rwa [getLast?_cons_or]⟩
    · rintro ⟨x, y, hcs, h⟩
      cases x with
      | nil =>
        obtain rfl : c :: cs = y := hcs
        exact .inl h
      | cons d x =>
        obtain ⟨rfl, rfl⟩ := List.cons.inj hcs
        exact .inr ⟨x, y, rfl, by rwa [getLast?_cons_or] at h⟩

section

variable {α : Type} {before : Option Char} {a b rest : List Char}

/-- The pattern matches at no place in `a`, where `rest` follows. -/
def Quiet (p : Pattern α) : (before : Option Char) → (a rest : List Char) → Prop
  | _, [], _ => True
  | before, c :: a, rest => p before (c :: (a ++ rest)) = none ∧ Quiet p (some c) a rest

theorem Quiet.append {p : Pattern α} (ha : Quiet p before a (b ++ rest))
    (hb : Quiet p (a.getLast?.or before) b rest) : Quiet p before (a ++ b) rest := by
  induction a generalizing before with
  | nil => exact hb
  | cons c a ih =>
    rw [getLast?_cons_or] at hb
    refine ⟨?_, ih ha.2 hb⟩
    change p before (c :: (a ++ b ++ rest)) = none
    rw [List.append_assoc]
    exact ha.1

theorem Quiet.split {p : Pattern α} (h : Quiet p before (a ++ b) rest) :
    Quiet p before a (b ++ rest) ∧ Quiet p (a.getLast?.or before) b rest := by
  induction a generalizing before with
  | nil => exact ⟨trivial, h⟩
  | cons c a ih =>
    have first : p before (c :: (a ++ b ++ rest)) = none := h.1
    obtain ⟨left, right⟩ := ih h.2
    rw [List.append_assoc] at first
    rw [getLast?_cons_or]
    exact ⟨⟨first, left⟩, right⟩

theorem Quiet.flatMap {ι : Type} {p : Pattern α} {f : ι → List Char}
    (hf : ∀ i before rest, Quiet p before (f i) rest) (hlast : ∀ before, Quiet p before a rest)
    (is : List ι) (before : Option Char) : Quiet p before (is.flatMap f ++ a) rest := by
  induction is generalizing before with
  | nil => exact hlast before
  | cons i is ih =>
    rw [List.flatMap_cons, List.append_assoc]
    exact .append (hf i _ _) (ih _)

theorem quiet_of_occurs {p : Pattern α} (h : occurs p before a = false) : Quiet p before a [] := by
  induction a generalizing before with
  | nil => trivial
  | cons c a ih =>
    simp only [occurs, Bool.or_eq_false_iff, Option.isSome_eq_false_iff, Option.isNone_iff_eq_none] at h
    refine ⟨?_, ih h.2⟩
    rw [List.append_nil]
    exact h.1

theorem replaceFrom_quiet {p : Pattern (List Char)} (h : Quiet p before a rest) :
    replaceFrom p before 0 (a ++ rest) = a ++ replaceFrom p (a.getLast?.or before) 0 rest := by
  induction a generalizing before with
  | nil => rfl
  | cons c a ih =>
    rw [List.cons_append, replaceFrom, h.1, getLast?_cons_or, List.cons_append, ← ih h.2]

theorem replaceFrom_eq_self {p : Pattern (List Char)} (h : Quiet p before a []) :
    replaceFrom p before 0 a = a := by
  have whole := replaceFrom_quiet h
  rwa [List.append_nil, replaceFrom, List.append_nil] at whole

theorem replaceFrom_skip (p : Pattern (List Char)) (before : Option Char) (w rest : List Char) :
    replaceFrom p before w.length (w ++ rest) = replaceFrom p (w.getLast?.or before) 0 rest := by
  induction w generalizing before with
  | nil => rfl
  | cons c w ih =>
    rw [getLast?_cons_or, ← ih]
    rfl

theorem replaceFrom_match {p : Pattern (List Char)} {w value : List Char} (hne : w ≠ [])
    (h : p before (w ++ rest) = some ⟨w.length, value⟩) :
    replaceFrom p before 0 (w ++ rest) = value ++ replaceFrom p w.getLast? 0 rest := by
  obtain ⟨c, w, rfl⟩ := List.exists_cons_of_ne_nil hne
  rw [List.cons_append, replaceFrom, ← List.cons_append, h]
  change value ++ replaceFrom p (some c) (w.length + 1 - 1) (w ++ rest) = _
  rw [Nat.add_sub_cancel, replaceFrom_skip, ← getLast?_cons_or c w none, Option.or_none]

end

end SqlDialect.Text

namespace SqlDialect.Fragment

open Text

def IsNowCall (w : List Char) : Prop :=
  ∃ name gap, w = name ++ '(' :: (gap ++ [')']) ∧ name.map Char.toLower = nowName ∧ Blank gap

def IsOpening (w : List Char) : Prop :=
  ∃ name gap, w = name ++ (gap ++ ['(']) ∧ name.map Char.toLower = dateFormatName ∧ Blank gap

theorem nowCall_eq_some_iff {before : Option Char} {cs : List Char} {m : Match (List Char)} :
    nowCall before cs = some m ↔
      wordMayStart before = true ∧
        ∃ w rest, IsNowCall w ∧ cs = w ++ rest ∧ m = ⟨w.length, currentTimestamp⟩ := by
  have ascii : IsAsciiName nowName := by decide
  have solid : isSpace ')' = false := by decide
  simp only [nowCall, Option.bind_eq_bind, Option.bind_eq_some_iff, Option.pure_def, Option.some.injEq,
    afterWord_eq_some_iff ascii, afterChar_eq_some_iff, afterChar_skipSpace_iff solid]
  constructor
  · rintro ⟨_, ⟨hstart, name, rfl, hname⟩, _, rfl, rest, ⟨gap, hgap, rfl⟩, rfl⟩
    have whole : name ++ '(' :: (gap ++ ')' :: rest) = name ++ '(' :: (gap ++ [')']) ++ rest := by simp
    exact ⟨hstart, _, rest, ⟨name, gap, rfl, hname, hgap⟩, whole, Match.upTo_eq whole _⟩
  · rintro ⟨hstart, _, rest, ⟨name, gap, rfl, hname, hgap⟩, rfl, rfl⟩
    refine ⟨'(' :: (gap ++ ')' :: rest), ⟨hstart, name, by simp, hname⟩, _, rfl, rest, ⟨gap, hgap, rfl⟩, ?_⟩
    exact Match.upTo_eq rfl _

theorem openDateFormat_eq_some_iff {before : Option Char} {cs gap inner : List Char} :
    openDateFormat before cs = some (gap, inner) ↔
      wordMayStart before = true ∧
        ∃ name, name.map Char.toLower = dateFormatName ∧ Blank gap ∧ cs = name ++ (gap ++ '(' :: inner) := by
  have ascii : IsAsciiName dateFormatName := by decide
  have solid : isSpace '(' = false := by decide
  simp only [openDateFormat, Option.bind_eq_bind, Option.bind_eq_some_iff, Option.pure_def,
    Option.some.injEq, Prod.mk.injEq, afterWord_eq_some_iff ascii, afterChar_skipSpace_iff solid]
  constructor
  · rintro ⟨_, ⟨hstart, name, rfl, hname⟩, _, ⟨gap, hgap, rfl⟩, rfl, rfl⟩
    rw [takeWhile_append hgap solid]
    exact ⟨hstart, name, hname, hgap, rfl⟩
  · rintro ⟨hstart, name, hname, hgap, rfl⟩
    exact ⟨_, ⟨hstart, name, rfl, hname⟩, inner, ⟨gap, hgap, rfl⟩, takeWhile_append hgap solid inner, rfl⟩

theorem dateFormatCall_eq_some_iff {before : Option Char} {cs : List Char} {m : Match (List Char)} :
    dateFormatCall before cs = some m ↔
      wordMayStart before = true ∧
        ∃ name gap rest, name.map Char.toLower = dateFormatName ∧ Blank gap ∧
          cs = name ++ (gap ++ ['(']) ++ rest ∧
          m = ⟨(name ++ (gap ++ ['('])).length, formatTimestamp ++ gap ++ ['(']⟩ := by
  simp only [dateFormatCall, Option.bind_eq_bind, Option.bind_eq_some_iff, Option.pure_def,
    Option.some.injEq, Prod.exists, openDateFormat_eq_some_iff]
  constructor
  · rintro ⟨gap, rest, ⟨hstart, name, hname, hgap, rfl⟩, rfl⟩
    have whole : name ++ (gap ++ '(' :: rest) = name ++ (gap ++ ['(']) ++ rest := by simp
    exact ⟨hstart, name, gap, rest, hname, hgap, whole, Match.upTo_eq whole _⟩
  · rintro ⟨hstart, name, gap, rest, hname, hgap, rfl, rfl⟩
    exact ⟨gap, rest, ⟨hstart, name, hname, hgap, by simp⟩, Match.upTo_eq rfl _⟩

/-- A word of the shape stands in the text, and no word goes on there. -/
def Holds (shape : List Char → Prop) (cs : List Char) : Prop :=
  ∃ before w after, cs = before ++ (w ++ after) ∧ wordMayStart before.getLast? = true ∧ shape w

/-- The text holds a call that is spelled otherwise in the target dialect. -/
def HoldsCall (cs : List Char) : Prop :=
  Holds IsNowCall cs ∨ Holds IsOpening cs

/-- The pattern matches where a word of the shape starts, and nowhere else. -/
def Finds {α : Type} (p : Pattern α) (shape : List Char → Prop) : Prop :=
  ∀ before cs, (p before cs).isSome = true ↔
    wordMayStart before = true ∧ ∃ w rest, cs = w ++ rest ∧ shape w

theorem nowCall_finds : Finds nowCall IsNowCall := by
  intro before cs
  simp only [Option.isSome_iff_exists, nowCall_eq_some_iff]
  constructor
  · rintro ⟨_, hstart, w, rest, hw, rfl, _⟩
    exact ⟨hstart, w, rest, rfl, hw⟩
  · rintro ⟨hstart, w, rest, rfl, hw⟩
    exact ⟨_, hstart, w, rest, hw, rfl, rfl⟩

theorem dateFormatCall_finds : Finds dateFormatCall IsOpening := by
  intro before cs
  simp only [Option.isSome_iff_exists, dateFormatCall_eq_some_iff]
  constructor
  · rintro ⟨_, hstart, name, gap, rest, hname, hgap, rfl, _⟩
    exact ⟨hstart, _, rest, rfl, name, gap, rfl, hname, hgap⟩
  · rintro ⟨hstart, _, rest, rfl, name, gap, rfl, hname, hgap⟩
    exact ⟨_, hstart, name, gap, rest, hname, hgap, rfl, rfl⟩

theorem occurs_iff_holds {α : Type} {p : Pattern α} {shape : List Char → Prop} (h : Finds p shape)
    (cs : List Char) : occurs p none cs = true ↔ Holds shape cs := by
  simp only [occurs_iff, Option.or_none]
  constructor
  · rintro ⟨before, _, rfl, hp⟩
    obtain ⟨hstart, w, after, rfl, hw⟩ := (h _ _).mp hp
    exact ⟨before, w, after, rfl, hstart, hw⟩
  · rintro ⟨before, w, after, rfl, hstart, hw⟩
    exact ⟨before, _, rfl, (h _ _).mpr ⟨hstart, w, after, rfl, hw⟩⟩

theorem holdsCall_iff (cs : List Char) :
    HoldsCall cs ↔ occurs nowCall none cs = true ∨ hasDateFormat cs = true := by
  rw [HoldsCall, hasDateFormat, occurs_iff_holds nowCall_finds, occurs_iff_holds dateFormatCall_finds]

instance (cs : List Char) : Decidable (HoldsCall cs) :=
  decidable_of_iff _ (holdsCall_iff cs).symm

/-- What stands between the quotes of a literal: a backslash takes the next character along, which is no
line end. -/
inductive LiteralBody (quote : Char) : List Char → Prop where
  | nil : LiteralBody quote []
  | plain {c : Char} {cs : List Char} :
      c ≠ quote → c ≠ '\\' → LiteralBody quote cs → LiteralBody quote (c :: cs)
  | escape {c : Char} {cs : List Char} :
      c ≠ '\n' → LiteralBody quote cs → LiteralBody quote ('\\' :: c :: cs)

def IsLiteral (w : List Char) : Prop :=
  ∃ quote body, (quote = '\'' ∨ quote = '"') ∧ LiteralBody quote body ∧ w = quote :: body ++ [quote]

theorem literalTail_eq_some_iff {quote : Char} (hq : quote ≠ '\\') {cs tail rest : List Char} :
    literalTail quote cs = some (tail, rest) ↔
      ∃ body, LiteralBody quote body ∧ tail = body ++ [quote] ∧ cs = tail ++ rest := by
  constructor
  · intro h
    fun_induction literalTail quote cs generalizing tail with
    | case1 => contradiction
    | case2 => contradiction
    | case3 => contradiction
    | case4 c cs hline ih =>
      obtain ⟨⟨tail, rest⟩, htail, h⟩ := Option.map_eq_some_iff.mp h
      cases h
      obtain ⟨body, hbody, rfl, rfl⟩ := ih htail
      exact ⟨_, .escape hline hbody, rfl, rfl⟩
    | case5 cs hback =>
      cases h
      exact ⟨[], .nil, rfl, rfl⟩
    | case6 c cs hback hquote ih =>
      obtain ⟨⟨tail, rest⟩, htail, h⟩ := Option.map_eq_some_iff.mp h
      cases h
      obtain ⟨body, hbody, rfl, rfl⟩ := ih htail
      exact ⟨_, .plain hquote hback hbody, rfl, rfl⟩
  · rintro ⟨body, hbody, rfl, rfl⟩
    induction hbody with
    | nil => simp [literalTail]
    | plain hquote hback hbody ih => simp_all [literalTail]
    | escape hline hbody ih => simp_all [literalTail]

theorem literal_eq_some_iff {cs format rest : List Char} :
    literal cs = some (format, rest) ↔ IsLiteral format ∧ cs = format ++ rest := by
  cases cs with
  | nil =>
    constructor
    · intro h
      contradiction
    · rintro ⟨⟨quote, body, _, _, rfl⟩, h⟩
      contradiction
  | cons c cs =>
    have solid {quote : Char} (h : quote = '\'' ∨ quote = '"') : quote ≠ '\\' := by
      rcases h with rfl | rfl <;> decide
    simp only [literal, Option.ite_none_right_eq_some, Option.map_eq_some_iff, Prod.exists, Prod.mk.injEq]
    constructor
    · rintro ⟨hquote, tail, rest, htail, rfl, rfl⟩
      obtain ⟨body, hbody, rfl, rfl⟩ := (literalTail_eq_some_iff (solid hquote)).mp htail
      exact ⟨⟨c, body, hquote, hbody, rfl⟩, rfl⟩
    · rintro ⟨⟨quote, body, hquote, hbody, rfl⟩, h⟩
      cases h
      refine ⟨hquote, body ++ [c], rest, ?_, rfl, rfl⟩
      exact (literalTail_eq_some_iff (solid hquote)).mpr ⟨body, hbody, rfl, by simp⟩

instance (w : List Char) : Decidable (IsLiteral w) :=
  decidable_of_iff (literal w = some (w, [])) (by simp [literal_eq_some_iff])

theorem IsLiteral.exists_cons {w : List Char} (h : IsLiteral w) :
    ∃ quote tail, w = quote :: tail ∧ (quote = '\'' ∨ quote = '"') ∧ w.getLast? = some quote := by
  obtain ⟨quote, body, hquote, _, rfl⟩ := h
  exact ⟨quote, body ++ [quote], rfl, hquote, List.getLast?_concat⟩

theorem literalArgument_eq_some_iff {cs format rest : List Char} :
    literalArgument cs = some (format, rest) ↔
      ∃ a b c, Blank a ∧ Blank b ∧ Blank c ∧ IsLiteral format ∧
        cs = a ++ ',' :: (b ++ (format ++ (c ++ ')' :: rest))) := by
  have comma : isSpace ',' = false := by decide
  have closing : isSpace ')' = false := by decide
  simp only [literalArgument, Option.bind_eq_bind, Option.bind_eq_some_iff, Option.pure_def,
    Option.some.injEq, Prod.mk.injEq, Prod.exists, afterChar_skipSpace_iff comma,
    afterChar_skipSpace_iff closing, literal_eq_some_iff]
  constructor
  · rintro ⟨after, ⟨a, ha, rfl⟩, _, _, ⟨hformat, hafter⟩, _, ⟨c, hc, rfl⟩, rfl, rfl⟩
    exact ⟨a, _, c, ha, blank_takeWhile after, hc, hformat, by rw [← hafter, takeWhile_skipSpace]⟩
  · rintro ⟨a, b, c, ha, hb, hc, hformat, rfl⟩
    refine ⟨_, ⟨a, ha, rfl⟩, format, _, ⟨hformat, ?_⟩, rest, ⟨c, hc, rfl⟩, rfl, rfl⟩
    obtain ⟨quote, tail, rfl, hquote, _⟩ := hformat.exists_cons
    have solid : isSpace quote = false := by rcases hquote with rfl | rfl <;> decide
    rw [List.cons_append, skipSpace_append hb solid]

/-- Nothing but blanks is taken from an argument. -/
theorem trimArgument_eq {cs value : List Char} (h : trimArgument cs = some value) :
    ∃ a b, Blank a ∧ Blank b ∧ cs = a ++ (value ++ b) := by
  have front := takeWhile_skipSpace cs
  have back : trimEnd (skipSpace cs) ++ ((skipSpace cs).reverse.takeWhile isSpace).reverse =
      skipSpace cs := by
    rw [trimEnd, ← List.reverse_append, List.takeWhile_append_dropWhile, List.reverse_reverse]
  have blank : Blank ((skipSpace cs).reverse.takeWhile isSpace).reverse := fun c hc =>
    blank_takeWhile _ c (List.mem_reverse.mp hc)
  unfold trimArgument at h
  split at h
  next empty =>
    rw [empty, List.nil_append] at back
    obtain ⟨c, hc, rfl⟩ := Option.map_eq_some_iff.mp h
    obtain ⟨init, rfl⟩ := List.getLast?_eq_some_iff.mp hc
    have all : Blank (init ++ [c]) := by
      rw [← front, ← back]
      exact List.forall_mem_append.mpr ⟨blank_takeWhile _, blank⟩
    exact ⟨init, [], (List.forall_mem_append.mp all).1, by simp [Blank], rfl⟩
  next =>
    cases h
    exact ⟨_, _, blank_takeWhile cs, blank, by rw [back, front]⟩

/-- A call `DATE_FORMAT(value, 'format')`, with blanks anywhere between its parts. -/
def IsLiteralCall (value format w : List Char) : Prop :=
  ∃ name gap a b c d, w = name ++ (gap ++ '(' :: (a ++ (value ++ (b ++ ',' :: (c ++ (format ++ (d ++ [')']))))))) ∧
    name.map Char.toLower = dateFormatName ∧ Blank gap ∧ Blank a ∧ Blank b ∧ Blank c ∧ Blank d ∧
    IsLiteral format

theorem dateFormatLiteral_eq {before : Option Char} {cs : List Char} {m : Match (List Char)}
    (h : dateFormatLiteral before cs = some m) :
    wordMayStart before = true ∧
      ∃ value format w rest, (∀ c ∈ value, isFlat c = true) ∧ IsLiteralCall value format w ∧ cs = w ++ rest ∧
        m = ⟨w.length, formatTimestamp ++ '(' :: format ++ [',', ' '] ++ value ++ [')']⟩ := by
  simp only [dateFormatLiteral, Option.bind_eq_bind, Option.bind_eq_some_iff, Option.pure_def,
    Option.some.injEq, Prod.exists] at h
  obtain ⟨gap, inner, hopen, value, hvalue, format, rest, hformat, rfl⟩ := h
  obtain ⟨hstart, name, hname, hgap, rfl⟩ := openDateFormat_eq_some_iff.mp hopen
  obtain ⟨a, b, ha, hb, hflat⟩ := trimArgument_eq hvalue
  obtain ⟨b', c, d, hb', hc, hd, hliteral, hrest⟩ := literalArgument_eq_some_iff.mp hformat
  have hinner : inner = a ++ (value ++ b) ++ (b' ++ ',' :: (c ++ (format ++ (d ++ ')' :: rest)))) := by
    rw [← hflat, ← hrest, List.takeWhile_append_dropWhile]
  have flat : ∀ c ∈ value, isFlat c = true := by
    intro c hc
    have taken : c ∈ inner.takeWhile isFlat := by simp [hflat, hc]
    exact List.all_eq_true.mp List.all_takeWhile c taken
  have blank : Blank (b ++ b') := List.forall_mem_append.mpr ⟨hb, hb'⟩
  refine ⟨hstart, value, format, _, rest, flat,
    ⟨name, gap, a, b ++ b', c, d, rfl, hname, hgap, ha, blank, hc, hd, hliteral⟩, ?_, Match.upTo_eq ?_ _⟩
  all_goals simp [hinner]

theorem trimArgument_eq_self {cs : List Char} (hne : cs ≠ []) (first : cs.head?.any isSpace = false)
    (last : cs.getLast?.any isSpace = false) : trimArgument cs = some cs := by
  have front : skipSpace cs = cs := by
    cases cs with
    | nil => rfl
    | cons c cs =>
      have hc : isSpace c = false := first
      simp [skipSpace, hc]
  have back : trimEnd cs = cs := by
    obtain ⟨init, c, rfl⟩ := (List.eq_nil_or_concat cs).resolve_left hne
    have hc : isSpace c = false := by simpa using last
    simp [trimEnd, hc]
  unfold trimArgument
  rw [front, back]
  cases cs with
  | nil => contradiction
  | cons c cs => rfl

end SqlDialect.Fragment
