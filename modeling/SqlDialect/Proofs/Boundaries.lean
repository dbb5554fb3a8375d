import SqlDialect.Proofs.SetList

/-!
Where the list of assignments ends. A `from` or `where` is a boundary if it stands between blanks, outside of
quotes and of brackets, whatever its case; this is said of the text as it is written. The scan looks at the
text with its quoted parts hidden, and finds the first boundary and no other.
-/
set_option autoImplicit false

namespace SqlDialect.Scan

open Text

/-- How many more brackets are opened than closed in a text, those between quotes aside. Like `depthAfter` this
has no bound, and is the same as in 32 bits below 2^31 brackets. -/
def openBrackets (s : State) : List Char → Int
  | [] => 0
  | c :: cs => (if s = .outside then depthAfter 0 c else 0) + openBrackets (s.next c) cs

/-- The text starts with a `from` or `where` between blanks. -/
def StartsBoundary (cs : List Char) : Prop :=
  ∃ b word e rest, cs = b :: (word ++ e :: rest) ∧ isSpace b = true ∧ isSpace e = true ∧
    (word.map Char.toLower = "from".toList ∨ word.map Char.toLower = "where".toList)

/-- A `from` or `where` stands between blanks, outside of quotes and of brackets. -/
def HoldsBoundary (cs : List Char) : Prop :=
  ∃ before after, cs = before ++ after ∧ State.outside.after before = .outside ∧
    openBrackets .outside before = 0 ∧ StartsBoundary after

theorem boundary?_from {b e : Char} {word : List Char} (hb : isSpace b = true) (he : isSpace e = true)
    (hword : word.map Char.toLower = "from".toList) (rest : List Char) :
    boundary? (b :: (word ++ e :: rest)) = some 6 := by
  have folded : word.map foldCase = "from".toList := (map_foldCase_eq_iff (by decide)).mpr hword
  have found : afterName ['f', 'r', 'o', 'm'] (word ++ e :: rest) = some (e :: rest) :=
    afterName_eq_some_iff.mpr ⟨word, rfl, folded⟩
  simp [boundary?, hb, he, found]

theorem boundary?_where {b e : Char} {word : List Char} (hb : isSpace b = true) (he : isSpace e = true)
    (hword : word.map Char.toLower = "where".toList) (rest : List Char) :
    boundary? (b :: (word ++ e :: rest)) = some 7 := by
  have folded : word.map foldCase = "where".toList := (map_foldCase_eq_iff (by decide)).mpr hword
  have found : afterName ['w', 'h', 'e', 'r', 'e'] (word ++ e :: rest) = some (e :: rest) :=
    afterName_eq_some_iff.mpr ⟨word, rfl, folded⟩
  have other : afterName ['f', 'r', 'o', 'm'] (word ++ e :: rest) = none := by
    cases word with
    | nil => contradiction
    | cons w word =>
      have hw : foldCase w = 'w' := (List.cons.inj folded).1
      simp [afterName, hw]
  simp [boundary?, hb, he, found, other]

theorem boundary?_isSome_iff (cs : List Char) : (boundary? cs).isSome = true ↔ StartsBoundary cs := by
  constructor
  · intro h
    obtain ⟨n, hn⟩ := Option.isSome_iff_exists.mp h
    obtain ⟨b, word, e, rest, rfl, hb, he, _, hword⟩ := boundary?_eq hn
    refine ⟨b, word, e, rest, rfl, hb, he, hword.imp ?_ ?_⟩
    · exact (map_foldCase_eq_iff (by decide)).mp
    · exact (map_foldCase_eq_iff (by decide)).mp
  · rintro ⟨b, word, e, rest, rfl, hb, he, hword | hword⟩
    · rw [boundary?_from hb he hword]
      rfl
    · rw [boundary?_where hb he hword]
      rfl

theorem holdsBoundary_iff (cs : List Char) :
    HoldsBoundary cs ↔ (List.range (cs.length + 1)).any (fun k =>
      State.outside.after (cs.take k) = .outside ∧ openBrackets .outside (cs.take k) = 0 ∧
        (boundary? (cs.drop k)).isSome = true) = true := by
  simp only [List.any_eq_true, List.mem_range, decide_eq_true_eq, boundary?_isSome_iff]
  constructor
  · rintro ⟨before, after, rfl, h⟩
    exact ⟨before.length, by rw [List.length_append]; omega, by simpa using h⟩
  · rintro ⟨k, _, h⟩
    exact ⟨_, _, (List.take_append_drop k cs).symm, h⟩

instance (cs : List Char) : Decidable (HoldsBoundary cs) :=
  decidable_of_iff _ (holdsBoundary_iff cs).symm

/-- What the mask shows of a character. -/
def shown (s : State) (c : Char) : List Char :=
  if s = .outside ∨ s.next c = .outside then [c] else List.replicate c.utf8Size '_'

theorem maskFrom_cons (s : State) (c : Char) (cs : List Char) :
    maskFrom s (c :: cs) = shown s c ++ maskFrom (s.next c) cs := rfl

theorem shown_outside (c : Char) : shown .outside c = [c] := by
  simp [shown]

theorem mem_shown {s : State} (hs : s.Proper) (hne : s ≠ .outside) {c x : Char} (hx : x ∈ shown s c) :
    x = '_' ∨ isQuote x = true := by
  unfold shown at hx
  split at hx
  next h =>
    obtain rfl := List.mem_singleton.mp hx
    cases s with
    | outside => contradiction
    | inside q =>
      have hnext := h.resolve_left hne
      simp only [State.next] at hnext
      split at hnext
      · contradiction
      · split at hnext
        next e => exact .inr (e ▸ hs)
        next => contradiction
    | escaped q => simp [State.next] at h
  next => exact .inl (List.eq_of_mem_replicate hx)

theorem not_bracket_of_shown {x : Char} (h : x = '_' ∨ isQuote x = true) : isBracket x = false := by
  simp only [isQuote, Bool.or_eq_true, beq_iff_eq] at h
  rcases h with rfl | (rfl | rfl) | rfl <;> rfl

theorem not_space_of_shown {x : Char} (h : x = '_' ∨ isQuote x = true) : isSpace x = false := by
  simp only [isQuote, Bool.or_eq_true, beq_iff_eq] at h
  rcases h with rfl | (rfl | rfl) | rfl <;> rfl

theorem isQuote_of_isSpace {c : Char} (h : isSpace c = true) : isQuote c = false := by
  rw [Bool.eq_false_iff]
  intro quote
  simp [not_space_of_shown (.inr quote)] at h

theorem isQuote_of_isNameChar {c : Char} (h : isNameChar c = true) : isQuote c = false := by
  rw [Bool.eq_false_iff]
  intro quote
  simp only [isQuote, Bool.or_eq_true, beq_iff_eq] at quote
  rcases quote with (rfl | rfl) | rfl <;> contradiction

theorem depthAfter_add (depth : Int) (c : Char) : depthAfter depth c = depth + depthAfter 0 c := by
  unfold depthAfter
  split
  · omega
  · split <;> omega

theorem depthFrom_maskFrom {s : State} (hs : s.Proper) (depth : Int) (cs : List Char) :
    depthFrom depth (maskFrom s cs) = depth + openBrackets s cs := by
  induction cs generalizing s depth with
  | nil => simp [maskFrom, openBrackets, depthFrom]
  | cons c cs ih =>
    have hcs := ih (hs.next c)
    rw [maskFrom_cons, depthFrom, List.foldl_append, ← depthFrom, ← depthFrom, hcs, openBrackets]
    by_cases hout : s = .outside
    · have hc : depthFrom depth [c] = depth + depthAfter 0 c := depthAfter_add depth c
      rw [if_pos hout, hout, shown_outside, hc]
      omega
    · have hidden : NoBrackets (shown s c) := fun x hx => not_bracket_of_shown (mem_shown hs hout hx)
      rw [if_neg hout, depthFrom_of_noBrackets hidden]
      omega

theorem exists_of_maskFrom {s : State} (hs : s.Proper) {cs before after : List Char} {b : Char}
    (hb : isSpace b = true) (h : maskFrom s cs = before ++ b :: after) :
    ∃ x y, cs = x ++ b :: y ∧ s.after x = .outside ∧ maskFrom s x = before ∧ mask y = after := by
  induction cs generalizing s before with
  | nil => simp [maskFrom] at h
  | cons c cs ih =>
    have later (rest : List Char) (hrest : maskFrom (s.next c) cs = rest ++ b :: after) :
        ∃ x y, c :: cs = x ++ b :: y ∧ s.after x = .outside ∧ maskFrom s x = shown s c ++ rest ∧
          mask y = after := by
      obtain ⟨x, y, rfl, hx, rfl, hy⟩ := ih (hs.next c) hrest
      exact ⟨c :: x, y, rfl, hx, rfl, hy⟩
    rw [maskFrom_cons, List.append_eq_append_iff] at h
    rcases h with ⟨rest, rfl, hrest⟩ | ⟨seen, hshown, hrest⟩
    · exact later _ hrest
    · cases seen with
      | nil =>
        rw [List.append_nil] at hshown
        have found := later [] hrest.symm
        rwa [List.append_nil, hshown] at found
      | cons x seen =>
        obtain ⟨rfl, hafter⟩ := List.cons.inj hrest
        have mem : b ∈ shown s c := by simp [hshown]
        by_cases hout : s = .outside
        · subst hout
          rw [shown_outside] at hshown
          cases before with
          | nil =>
            cases hshown
            exact ⟨[], cs, rfl, rfl, rfl, by rw [hafter, next_outside (isQuote_of_isSpace hb)]; rfl⟩
          | cons x before => simp at hshown
        · simp [not_space_of_shown (mem_shown hs hout mem)] at hb

/-- Letters that the mask shows stand outside of quotes; what follows them is a blank of the text, or the blank
after it. -/
theorem exists_of_mask_append {word : List Char} (letters : ∀ c ∈ word, isNameChar c = true)
    {text rest : List Char} (hrest : ∀ c ∈ rest.head?, c = ' ') {e : Char} (he : isSpace e = true)
    {after : List Char} (h : mask text ++ rest = word ++ e :: after) :
    ∃ x y, text ++ [' '] = word ++ x :: y ∧ isSpace x = true := by
  induction word generalizing text with
  | nil =>
    cases text with
    | nil => exact ⟨' ', [], rfl, by decide⟩
    | cons c text =>
      rw [mask, maskFrom_cons, shown_outside] at h
      obtain rfl : c = e := (List.cons.inj h).1
      exact ⟨c, text ++ [' '], rfl, he⟩
  | cons w word ih =>
    obtain ⟨hw, hword⟩ := List.forall_mem_cons.mp letters
    cases text with
    | nil =>
      have blank : w = ' ' := hrest w (by rw [show rest = w :: (word ++ e :: after) from h]; rfl)
      subst blank
      contradiction
    | cons c text =>
      rw [mask, maskFrom_cons, shown_outside] at h
      obtain ⟨rfl, htail⟩ := List.cons.inj h
      rw [next_outside (isQuote_of_isNameChar hw)] at htail
      obtain ⟨x, y, hxy, hx⟩ := ih hword htail
      exact ⟨x, y, congrArg (c :: ·) hxy, hx⟩

/-- Where the written list holds no boundary, neither does its mask, whatever follows. -/
theorem unbroken_mask {list rest : List Char} (h : ¬ HoldsBoundary (list ++ [' ']))
    (hrest : ∀ c ∈ rest.head?, c = ' ') : Unbroken 0 rest (mask list) := by
  intro before after hmask hne hdepth
  rw [← Option.not_isSome_iff_eq_none, boundary?_isSome_iff]
  rintro ⟨b, word, e, tail, htext, hb, he, hword⟩
  obtain ⟨c, after, rfl⟩ := List.exists_cons_of_ne_nil hne
  rw [List.cons_append, List.cons.injEq] at htext
  obtain ⟨rfl, htext⟩ := htext
  obtain ⟨x, y, rfl, hx, rfl, rfl⟩ := exists_of_maskFrom (s := .outside) trivial hb hmask
  have letters : ∀ c ∈ word, isNameChar c = true := by
    rcases hword with hword | hword
    · exact isNameChar_of_map hword (by decide)
    · exact isNameChar_of_map hword (by decide)
  obtain ⟨e', tail', hblank, he'⟩ := exists_of_mask_append letters hrest he htext
  refine h ⟨x, c :: (y ++ [' ']), by simp, hx, ?_, c, word, e', tail', by rw [hblank], hb, he', hword⟩
  have hdepth' := depthFrom_maskFrom (s := .outside) trivial 0 x
  omega

theorem upToBoundary_isPrefix (depth : Int) (skip : Nat) (cs : List Char) :
    upToBoundary depth skip cs <+: cs := by
  induction cs generalizing depth skip with
  | nil => exact List.nil_prefix
  | cons c cs ih =>
    have next (k : Nat) : c :: upToBoundary (depthAfter depth c) k cs <+: c :: cs :=
      List.cons_prefix_cons.mpr ⟨rfl, ih (depthAfter depth c) k⟩
    cases skip with
    | succ skip => exact next skip
    | zero =>
      rw [upToBoundary_cons]
      split
      · split
        · exact List.nil_prefix
        · exact next _
      · exact next 0

/-- What may stand after the list: nothing, or a boundary. -/
def FollowsList (rest : String) : Prop :=
  rest = "" ∨ (∃ r, rest = " from " ++ r) ∨ ∃ r, rest = " where " ++ r

theorem FollowsList.mask_cases {rest : String} (h : FollowsList rest) :
    mask rest.toList = [] ∨
      (boundary? (mask rest.toList)).isSome = true ∧ (mask rest.toList).head? = some ' ' := by
  rcases h with rfl | ⟨r, rfl⟩ | ⟨r, rfl⟩
  · exact .inl rfl
  · rw [String.toList_append, mask_unquoted_append (by decide)]
    exact .inr ⟨rfl, rfl⟩
  · rw [String.toList_append, mask_unquoted_append (by decide)]
    exact .inr ⟨rfl, rfl⟩

theorem upToBoundary_mask {list : List Char} {rest : String} (brackets : openBrackets .outside list = 0)
    (free : ¬ HoldsBoundary (list ++ [' '])) (hrest : FollowsList rest) :
    upToBoundary 0 0 (mask list ++ mask rest.toList) = mask list := by
  rcases hrest.mask_cases with none | ⟨found, first⟩
  · have unbroken : Unbroken 0 [] (mask list) := unbroken_mask free (by simp)
    have whole := prefix_upToBoundary unbroken 0
    have part := upToBoundary_isPrefix 0 0 (mask list ++ [])
    rw [List.append_nil] at whole part
    rw [none, List.append_nil]
    exact part.eq_of_length (Nat.le_antisymm part.length_le whole.length_le)
  · have depth : depthFrom 0 (mask list) = 0 := by
      rw [mask, depthFrom_maskFrom (s := .outside) trivial, brackets, Int.add_zero]
    exact upToBoundary_eq found depth (unbroken_mask free (by simp [first]))

end SqlDialect.Scan

namespace SqlDialect.Dialect

open Piece Scan

theorem toList_compile_table (t : Table) :
    (bigQuery.compile (.mk (.table t))).sql.toList = (bigQuery.table t).flatMap chars := by
  rw [toList_compile, pieces_mk]
  rfl

/-- The scan of an update finds all placeholders of the list of assignments and no others, whatever the list
holds between quotes and in brackets, and whatever follows it. -/
theorem setParameters?_exact (t : Table) (list rest : String)
    (names : ∀ name ∈ t.identifiers, '\\' ∉ name.toList)
    (quotes : State.outside.after list.toList = .outside)
    (brackets : openBrackets .outside list.toList = 0)
    (free : ¬ HoldsBoundary (list.toList ++ [' '])) (hrest : FollowsList rest) :
    setParameters? ("update " ++ (bigQuery.compile (.mk (.table t))).sql ++ " set " ++ list ++ rest) =
      some (countPlaceholders list) := by
  have hsql : ("update " ++ (bigQuery.compile (.mk (.table t))).sql ++ " set " ++ list ++ rest).toList =
      "update ".toList ++ (bigQuery.table t).flatMap chars ++ " set ".toList ++
        (list.toList ++ rest.toList) := by
    simp only [String.toList_append, toList_compile_table, List.append_assoc]
  rw [setParameters?_update names quotes hsql, upToBoundary_mask brackets free hrest, count_mask,
    countPlaceholders]

def nestedList : String :=
  "a = ' where (?', b = (select ? From\nc where d) + ?"

theorem setParameters?_exact_nestedList :
    let t : Table := ⟨some "a set b", "where \x60x"⟩
    ((∀ name ∈ t.identifiers, '\\' ∉ name.toList) ∧ State.outside.after nestedList.toList = .outside ∧
      openBrackets .outside nestedList.toList = 0 ∧ ¬ HoldsBoundary (nestedList.toList ++ [' ']) ∧
      FollowsList " where from = ?") ∧
    setParameters? ("update " ++ (bigQuery.compile (.mk (.table t))).sql ++ " set " ++ nestedList ++
      " where from = ?") = some 2 :=
  have names : Readable (Table.identifiers ⟨some "a set b", "where \x60x"⟩) := by decide
  have quotes : State.outside.after nestedList.toList = .outside := by decide
  have brackets : openBrackets .outside nestedList.toList = 0 := by decide
  have free : ¬ HoldsBoundary (nestedList.toList ++ [' ']) := by decide +kernel
  have rest : FollowsList " where from = ?" := .inr (.inr ⟨"from = ?", by decide⟩)
  ⟨⟨names, quotes, brackets, free, rest⟩,
    (setParameters?_exact _ nestedList _ names quotes brackets free rest).trans (by decide)⟩

end SqlDialect.Dialect
