import SqlDialect.Proofs.Boundaries
import SqlDialect.Proofs.Tokens

/-!
Masks, byte by byte. What stands between quotes is said by a grammar in which a backslash and the character
after it are one item, while the scan goes on by one character and remembers the backslash. Both find the
same content, whether or not the last quotation is closed. The mask has an underscore for each byte of it
and is the text elsewhere, so positions in the mask are positions in the text.
-/
set_option autoImplicit false

namespace SqlDialect.Scan

/-- Text between the quotes `q`. -/
inductive Content (q : Char) : List Char → Prop where
  | nil : Content q []
  | plain {c : Char} {cs : List Char} : c ≠ q → c ≠ '\\' → Content q cs → Content q (c :: cs)
  | escape {c : Char} {cs : List Char} : Content q cs → Content q ('\\' :: c :: cs)

/-- Text in which each quotation is closed. -/
inductive Balanced : List Char → Prop where
  | nil : Balanced []
  | plain {c : Char} {cs : List Char} : isQuote c = false → Balanced cs → Balanced (c :: cs)
  | quoted {q : Char} {body cs : List Char} :
      isQuote q = true → Content q body → Balanced cs → Balanced (q :: body ++ q :: cs)

/-- The text before a place opens a quotation, and the character there is part of what it quotes. -/
inductive Quoted : (before : List Char) → Char → Prop where
  | plain {closed body : List Char} {q c : Char} :
      Balanced closed → isQuote q = true → Content q body → c ≠ q → Quoted (closed ++ q :: body) c
  | escaped {closed body : List Char} {q c : Char} :
      Balanced closed → isQuote q = true → Content q body → Quoted (closed ++ q :: (body ++ ['\\'])) c

theorem Content.append {q : Char} {a b : List Char} (ha : Content q a) (hb : Content q b) :
    Content q (a ++ b) := by
  induction ha with
  | nil => exact hb
  | plain hc hslash _ ih => exact .plain hc hslash ih
  | escape _ ih => exact .escape ih

theorem Balanced.append {a b : List Char} (ha : Balanced a) (hb : Balanced b) : Balanced (a ++ b) := by
  induction ha with
  | nil => exact hb
  | plain hc _ ih => exact .plain hc ih
  | quoted hq hbody _ ih =>
    simp only [List.append_assoc, List.cons_append]
    exact .quoted hq hbody ih

theorem Content.after {q : Char} {body : List Char} (h : Content q body) :
    (State.inside q).after body = .inside q := by
  induction h with
  | nil => rfl
  | plain hc hslash _ ih => simpa [State.after, State.next, hc, hslash] using ih
  | escape _ ih => simpa [State.after, State.next] using ih

theorem Balanced.after {cs : List Char} (h : Balanced cs) : State.outside.after cs = .outside := by
  induction h with
  | nil => rfl
  | plain hc _ ih => simpa [State.after, State.next, hc] using ih
  | quoted hq hbody _ ih =>
    rw [List.cons_append, after_quote hq, State.after_append, hbody.after, State.after, List.foldl_cons,
      next_closing hq]
    exact ih

/-- What the grammar says of a text after which the scan is in a state. -/
def State.Parses : State → List Char → Prop
  | .outside, cs => Balanced cs
  | .inside q, cs =>
    ∃ closed body, cs = closed ++ q :: body ∧ Balanced closed ∧ isQuote q = true ∧ Content q body
  | .escaped q, cs =>
    ∃ closed body, cs = closed ++ q :: (body ++ ['\\']) ∧ Balanced closed ∧ isQuote q = true ∧
      Content q body

theorem State.Parses.next {s : State} {cs : List Char} (h : s.Parses cs) (c : Char) :
    (s.next c).Parses (cs ++ [c]) := by
  cases s with
  | outside =>
    by_cases hc : isQuote c = true
    · simp only [State.next, hc, if_true]
      exact ⟨cs, [], rfl, h, hc, .nil⟩
    · simp only [Bool.not_eq_true] at hc
      simp only [State.next, hc, Bool.false_eq_true, if_false]
      exact h.append (.plain hc .nil)
  | inside q =>
    obtain ⟨closed, body, hcs, hclosed, hq, hbody⟩ := h
    subst hcs
    by_cases hslash : c = '\\'
    · subst hslash
      exact ⟨closed, body, by simp, hclosed, hq, hbody⟩
    · by_cases hc : c = q
      · subst hc
        simp only [State.next, hslash, if_false, if_true, List.append_assoc]
        exact hclosed.append (.quoted hq hbody .nil)
      · simp only [State.next, hslash, hc, if_false]
        exact ⟨closed, body ++ [c], by simp, hclosed, hq, hbody.append (.plain hc hslash .nil)⟩
  | escaped q =>
    obtain ⟨closed, body, hcs, hclosed, hq, hbody⟩ := h
    subst hcs
    exact ⟨closed, body ++ ['\\', c], by simp, hclosed, hq, hbody.append (.escape .nil)⟩

theorem parses_after (cs : List Char) : (State.outside.after cs).Parses cs := by
  induction cs using List.reverseRecOn with
  | nil => exact Balanced.nil
  | append_singleton cs c ih =>
    have h := ih.next c
    rwa [State.after, List.foldl_append]

def State.hides (s : State) (c : Char) : Bool :=
  s ≠ .outside && s.next c ≠ .outside

theorem quoted_iff (before : List Char) (c : Char) :
    Quoted before c ↔ (State.outside.after before).hides c = true := by
  constructor
  · intro h
    cases h with
    | @plain closed body q c hclosed hq hbody hc =>
      have inside : State.outside.after (closed ++ q :: body) = .inside q := by
        rw [State.after_append, hclosed.after, after_quote hq, hbody.after]
      by_cases hslash : c = '\\' <;> simp [inside, State.hides, State.next, hc, hslash]
    | @escaped closed body q c hclosed hq hbody =>
      have escaped : State.outside.after (closed ++ q :: (body ++ ['\\'])) = .escaped q := by
        rw [State.after_append, hclosed.after, after_quote hq, State.after_append, hbody.after]
        rfl
      simp [escaped, State.hides, State.next]
  · intro h
    have parsed := parses_after before
    cases hs : State.outside.after before with
    | outside => simp [hs, State.hides] at h
    | inside q =>
      rw [hs] at h parsed
      obtain ⟨closed, body, hbefore, hclosed, hq, hbody⟩ := parsed
      subst hbefore
      have hc : c ≠ q := by
        intro e
        subst e
        simp [State.hides, next_closing hq] at h
      exact .plain hclosed hq hbody hc
    | escaped q =>
      rw [hs] at parsed
      obtain ⟨closed, body, hbefore, hclosed, hq, hbody⟩ := parsed
      subst hbefore
      exact .escaped hclosed hq hbody

def utf8 (cs : List Char) : List UInt8 :=
  cs.flatMap String.utf8EncodeChar

theorem data_toUTF8 (s : String) : s.toUTF8.data = (utf8 s.toList).toArray := by
  rw [String.toUTF8_eq_toByteArray, ← String.utf8Encode_toList, List.utf8Encode]
  simp [utf8]

theorem utf8ByteSize_eq (s : String) : s.utf8ByteSize = (utf8 s.toList).length := by
  have h := congrArg Array.size (data_toUTF8 s)
  simpa using h

theorem utf8_cons (c : Char) (cs : List Char) : utf8 (c :: cs) = String.utf8EncodeChar c ++ utf8 cs := rfl

theorem utf8_append (a b : List Char) : utf8 (a ++ b) = utf8 a ++ utf8 b :=
  List.flatMap_append

theorem utf8_shown (s : State) (c : Char) :
    utf8 (shown s c) =
      if s.hides c then List.replicate c.utf8Size '_'.toUInt8 else String.utf8EncodeChar c := by
  by_cases h : s.hides c = true
  · have hidden : ¬ (s = .outside ∨ s.next c = .outside) := by simpa [State.hides] using h
    have underscore : String.utf8EncodeChar '_' = ['_'.toUInt8] := by decide
    rw [shown, if_neg hidden, if_pos h, utf8, List.flatMap_replicate, underscore]
    simp
  · have visible : s = .outside ∨ s.next c = .outside := by
      simp only [State.hides, Bool.and_eq_true, decide_eq_true_eq, not_and_or, not_not] at h
      exact h
    rw [shown, if_pos visible, if_neg h, utf8_cons]
    simp [utf8]

theorem length_utf8_shown (s : State) (c : Char) : (utf8 (shown s c)).length = c.utf8Size := by
  rw [utf8_shown]
  split
  · exact List.length_replicate
  · exact String.length_utf8EncodeChar c

theorem length_utf8_maskFrom (s : State) (cs : List Char) :
    (utf8 (maskFrom s cs)).length = (utf8 cs).length := by
  induction cs generalizing s with
  | nil => rfl
  | cons c cs ih =>
    rw [maskFrom_cons, utf8_append, utf8_cons, List.length_append, List.length_append, length_utf8_shown,
      String.length_utf8EncodeChar, ih]

/-- Whether the scan takes the byte at a position for quoted content. -/
def contentAt (s : State) : List Char → (i : Nat) → Bool
  | [], _ => false
  | c :: cs, i => if i < c.utf8Size then s.hides c else contentAt (s.next c) cs (i - c.utf8Size)

theorem getElem?_utf8_maskFrom (s : State) (cs : List Char) (i : Nat) :
    (utf8 (maskFrom s cs))[i]? = if contentAt s cs i then some '_'.toUInt8 else (utf8 cs)[i]? := by
  induction cs generalizing s i with
  | nil => simp [maskFrom, utf8, contentAt]
  | cons c cs ih =>
    have hshown := length_utf8_shown s c
    have hchar := String.length_utf8EncodeChar c
    rw [maskFrom_cons, utf8_append, utf8_cons]
    by_cases hi : i < c.utf8Size
    · rw [List.getElem?_append_left (by omega), List.getElem?_append_left (by omega), contentAt, if_pos hi,
        utf8_shown]
      split
      · rw [List.getElem?_replicate, if_pos hi]
      · rfl
    · rw [List.getElem?_append_right (by omega), List.getElem?_append_right (by omega), contentAt,
        if_neg hi, hshown, hchar, ih]

/-- The byte at a position belongs to a character that is quoted content. -/
def InContent (sql : String) (i : Nat) : Prop :=
  ∃ before c rest, sql.toList = before ++ c :: rest ∧ Quoted before c ∧
    (String.ofList before).utf8ByteSize ≤ i ∧ i < (String.ofList before).utf8ByteSize + c.utf8Size

theorem contentAt_iff (seen cs : List Char) (i : Nat) :
    contentAt (State.outside.after seen) cs i = true ↔
      ∃ before c rest, cs = before ++ c :: rest ∧ Quoted (seen ++ before) c ∧
        (utf8 before).length ≤ i ∧ i < (utf8 before).length + c.utf8Size := by
  induction cs generalizing seen i with
  | nil => simp [contentAt]
  | cons x cs ih =>
    have step : (State.outside.after seen).next x = State.outside.after (seen ++ [x]) := by
      rw [State.after_append]
      rfl
    have size := String.length_utf8EncodeChar x
    rw [contentAt, step]
    constructor
    · intro h
      by_cases hi : i < x.utf8Size
      · rw [if_pos hi] at h
        refine ⟨[], x, cs, rfl, ?_, Nat.zero_le i, ?_⟩
        · rwa [List.append_nil, quoted_iff]
        · simpa [utf8] using hi
      · rw [if_neg hi] at h
        obtain ⟨before, c, rest, hcs, hquoted, low, high⟩ := (ih (seen ++ [x]) _).mp h
        subst hcs
        refine ⟨x :: before, c, rest, rfl, by simpa using hquoted, ?_, ?_⟩
        · rw [utf8_cons, List.length_append]
          omega
        · rw [utf8_cons, List.length_append]
          omega
    · intro h
      obtain ⟨before, c, rest, hcs, hquoted, low, high⟩ := h
      cases before with
      | nil =>
        obtain ⟨hx, hrest⟩ := List.cons.inj hcs
        subst hx
        rw [List.append_nil, quoted_iff] at hquoted
        have hi : i < x.utf8Size := by simpa [utf8] using high
        rwa [if_pos hi]
      | cons y before =>
        obtain ⟨hx, hrest⟩ := List.cons.inj hcs
        subst hx
        rw [utf8_cons, List.length_append] at low high
        rw [if_neg (by omega), ih]
        exact ⟨before, c, rest, hrest, by simpa using hquoted, by omega, by omega⟩

theorem inContent_iff (sql : String) (i : Nat) :
    InContent sql i ↔ contentAt .outside sql.toList i = true := by
  have h := contentAt_iff [] sql.toList i
  simp only [List.nil_append, State.after, List.foldl_nil] at h
  simp only [InContent, utf8ByteSize_eq, String.toList_ofList, h]

instance (sql : String) (i : Nat) : Decidable (InContent sql i) :=
  decidable_of_iff _ (inContent_iff sql i).symm

/-- The placeholders of a text, in reading which a backslash between quotes is taken together with the
character after it. -/
def countAhead : (quote : Option Char) → List Char → Nat
  | _, [] => 0
  | none, c :: cs =>
    if isQuote c then countAhead (some c) cs
    else if c = '?' then countAhead none cs + 1 else countAhead none cs
  | some q, c :: cs =>
    if c = '\\' then
      match cs with
      | [] => 0
      | _ :: rest => countAhead (some q) rest
    else if c = q then countAhead none cs else countAhead (some q) cs

def State.ofQuote : Option Char → State
  | none => .outside
  | some q => .inside q

theorem countAhead_eq (quote : Option Char) (cs : List Char) :
    countAhead quote cs = countFrom (.ofQuote quote) cs := by
  fun_induction countAhead quote cs with
  | case1 quote => rfl
  | case2 c cs hc ih =>
    simpa [countFrom, State.ofQuote, State.next, hc, ne_mark hc] using ih
  | case3 cs hc ih =>
    rw [ih, Nat.add_comm]
    simp [countFrom, State.ofQuote, State.next, hc]
  | case4 c cs hc hmark ih => simpa [countFrom, State.ofQuote, State.next, hc, hmark] using ih
  | case5 q => rfl
  | case6 q c rest ih => simpa [countFrom, State.ofQuote, State.next] using ih
  | case7 cs q hslash ih => simpa [countFrom, State.ofQuote, State.next, hslash] using ih
  | case8 q c cs hslash hc ih => simpa [countFrom, State.ofQuote, State.next, hslash, hc] using ih

def masked (sql : String) : String :=
  String.ofList (mask sql.toList)

/-- A mask has the bytes of the text in number and, outside of quoted content, one by one; it has underscores
inside. The placeholders are the question marks that it leaves, and the same ones are found by going over a
backslash and the character after it at once. -/
theorem mask_bytewise (sql : String) :
    (masked sql).utf8ByteSize = sql.utf8ByteSize ∧
      (∀ i, (masked sql).toUTF8.data[i]? =
        if InContent sql i then some '_'.toUInt8 else sql.toUTF8.data[i]?) ∧
      (masked sql).toList.count '?' = countPlaceholders sql ∧
      countPlaceholders sql = countAhead none sql.toList := by
  have hmasked : (masked sql).toList = mask sql.toList := String.toList_ofList
  refine ⟨?_, fun i => ?_, ?_, ?_⟩
  · rw [utf8ByteSize_eq, utf8ByteSize_eq, hmasked]
    exact length_utf8_maskFrom .outside sql.toList
  · rw [data_toUTF8, data_toUTF8, hmasked, List.getElem?_toArray, List.getElem?_toArray, mask,
      getElem?_utf8_maskFrom]
    simp only [inContent_iff]
  · rw [hmasked]
    exact count_mask sql.toList
  · exact (countAhead_eq none sql.toList).symm

example :
    mask "'ä\\'?' = ? or \"ö?\\".toList = "'_____' = ? or \"____".toList ∧
      InContent "'ä' = ?" 2 ∧ ¬ InContent "'ä' = ?" 3 := by
  decide

end SqlDialect.Scan
