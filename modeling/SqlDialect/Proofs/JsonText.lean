import SqlDialect.Json.Printer
import SqlDialect.Json.Reader

set_option autoImplicit false

namespace SqlDialect.Json

/-- Text in which no number goes on. -/
def Ends (rest : List Char) : Prop :=
  ∀ c ∈ rest.head?, c.isDigit = false ∧ c ≠ '.' ∧ isExponentMark c = false

theorem ends_nil : Ends [] := nofun

theorem digitValue_digitChar {d : Nat} (h : d < 10) : digitValue (Nat.digitChar d) = d := by
  rw [digitValue, Nat.toNat_digitChar_of_lt_ten h]
  exact Nat.add_sub_cancel_left 48 d

theorem toDigits_eq {n : Nat} (h : 10 ≤ n) :
    Nat.toDigits 10 n = Nat.toDigits 10 (n / 10) ++ [Nat.digitChar (n % 10)] := by
  have digits := Nat.toDigits_append_toDigits (by decide : 1 < 10) (by omega : 0 < n / 10)
    (Nat.mod_lt n (by decide : 0 < 10))
  rw [Nat.toDigits_of_lt_base (Nat.mod_lt n (by decide)), Nat.div_add_mod] at digits
  exact digits.symm

theorem toDigits_cons (n : Nat) : ∃ c cs, Nat.toDigits 10 n = c :: cs ∧ c.isDigit = true := by
  cases hd : Nat.toDigits 10 n with
  | nil => exact absurd hd Nat.toDigits_ne_nil
  | cons c cs =>
    exact ⟨c, cs, rfl, Nat.isDigit_of_mem_toDigits (by decide) (by decide) (hd ▸ List.mem_cons_self)⟩

theorem digitsValue_toDigits (n : Nat) : digitsValue (Nat.toDigits 10 n) = n := by
  induction n using Nat.strongRecOn with
  | ind n ih =>
    by_cases h : n < 10
    · simp [Nat.toDigits_of_lt_base h, digitsValue, digitValue_digitChar h]
    · have last := digitValue_digitChar (Nat.mod_lt n (by decide : 0 < 10))
      have rest := ih (n / 10) (by omega)
      rw [digitsValue] at rest
      rw [toDigits_eq (by omega), digitsValue, List.foldl_append, rest]
      simp only [List.foldl_cons, List.foldl_nil, last]
      omega

theorem head_toDigits_ne_zero {n : Nat} (h : 0 < n) : (Nat.toDigits 10 n).head? ≠ some '0' := by
  induction n using Nat.strongRecOn with
  | ind n ih =>
    by_cases hn : n < 10
    · have digit : ∀ d < 10, 0 < d → Nat.digitChar d ≠ '0' := by decide
      simpa [Nat.toDigits_of_lt_base hn] using digit n hn h
    · have rest := ih (n / 10) (by omega) (by omega)
      obtain ⟨c, cs, digits, -⟩ := toDigits_cons (n / 10)
      rw [digits] at rest
      rwa [toDigits_eq (by omega), digits]

theorem le_foldl_digits (ds : List Char) (n : Nat) :
    n ≤ ds.foldl (fun n d => n * 10 + digitValue d) n := by
  induction ds generalizing n with
  | nil => exact Nat.le_refl n
  | cons d ds ih =>
    have step := ih (n * 10 + digitValue d)
    simp only [List.foldl_cons]
    omega

theorem absorb_eq {ds : List Char} {n : Nat} (used : Nat)
    (h : ds.foldl (fun n d => n * 10 + digitValue d) n ≤ maxSignificand) :
    absorb n used ds = (ds.foldl (fun n d => n * 10 + digitValue d) n, used + ds.length) := by
  induction ds generalizing n used with
  | nil => rfl
  | cons d ds ih =>
    have next := Nat.le_trans (le_foldl_digits ds (n * 10 + digitValue d)) h
    rw [absorb, if_pos next, ih (used + 1) h, List.foldl_cons, List.length_cons]
    congr 1
    omega

theorem absorb_toDigits {n : Nat} (h : n ≤ maxSignificand) :
    absorb 0 0 (Nat.toDigits 10 n) = (n, (Nat.toDigits 10 n).length) := by
  have value := digitsValue_toDigits n
  rw [digitsValue] at value
  rw [absorb_eq 0 (by rw [value]; exact h), value, Nat.zero_add]

theorem afterInteger_toDigits (negative : Bool) {n : Nat} (h : n ≤ maxSignificand) {rest : List Char}
    (hr : Ends rest) :
    afterInteger negative (Nat.toDigits 10 n) rest = .ok (integerOf negative n, rest) := by
  cases rest with
  | nil => simp [afterInteger, absorb_toDigits h]
  | cons c cs =>
    obtain ⟨-, point, mark⟩ := hr c rfl
    simp [afterInteger, absorb_toDigits h, mark]

theorem takeWhile_toDigits (n : Nat) {rest : List Char} (hr : Ends rest) :
    (Nat.toDigits 10 n ++ rest).takeWhile Char.isDigit = Nat.toDigits 10 n ∧
      (Nat.toDigits 10 n ++ rest).dropWhile Char.isDigit = rest := by
  have digits : ∀ c ∈ Nat.toDigits 10 n, c.isDigit = true := fun c hc =>
    Nat.isDigit_of_mem_toDigits (by decide) (by decide) hc
  rw [List.takeWhile_append_of_pos digits, List.dropWhile_append_of_pos digits]
  cases rest with
  | nil => simp
  | cons c cs => simp [(hr c rfl).1]

theorem readNumber_toDigits (negative : Bool) {n : Nat} (h : n ≤ maxSignificand) {rest : List Char}
    (hr : Ends rest) :
    readNumber negative (Nat.toDigits 10 n ++ rest) = .ok (integerOf negative n, rest) := by
  have after := afterInteger_toDigits negative h hr
  rcases Nat.eq_zero_or_pos n with rfl | hn
  · cases rest with
    | nil => exact after
    | cons c cs =>
      have digit := (hr c rfl).1
      simpa [readNumber, digit] using after
  · obtain ⟨c, cs, digits, digit⟩ := toDigits_cons n
    have head := head_toDigits_ne_zero hn
    have split := takeWhile_toDigits n hr
    rw [digits] at after
    rw [digits, List.cons_append] at split ⊢
    have zero : c ≠ '0' := by simpa [digits] using head
    simp [readNumber, digit, split, after]

theorem hexValues?_control {c : Char} (h : c.toNat < 0x20) :
    hexValues? '0' '0' (Nat.digitChar (c.toNat / 16)) (Nat.digitChar (c.toNat % 16)) = some c.toNat := by
  have control : ∀ n < 0x20,
      hexValues? '0' '0' (Nat.digitChar (n / 16)) (Nat.digitChar (n % 16)) = some n := by decide
  exact control c.toNat h

/-- A character is written with a letter of its own, with its code or as it is. -/
theorem escape_cases (c : Char) :
    (∃ letter, escape c = ['\\', letter] ∧ letter ≠ 'u' ∧ unescape? letter = some c) ∨
      (c.toNat < 0x20 ∧
        escape c = ['\\', 'u', '0', '0', Nat.digitChar (c.toNat / 16), Nat.digitChar (c.toNat % 16)]) ∨
      (escape c = [c] ∧ c ≠ '"' ∧ c ≠ '\\' ∧ ¬ c.toNat < 0x20) := by
  by_cases short : c ∈ ['"', '\\', '\n', '\r', '\t', '\x08', '\x0c']
  · simp only [List.mem_cons, List.not_mem_nil, or_false] at short
    rcases short with rfl | rfl | rfl | rfl | rfl | rfl | rfl <;>
      exact .inl ⟨_, rfl, by decide, rfl⟩
  · simp only [List.mem_cons, List.not_mem_nil, or_false, not_or] at short
    by_cases control : c.toNat < 0x20 <;> simp [escape, short, control]

theorem readString_escape (read : List Char) (c : Char) (cs : List Char) :
    readString read (escape c ++ cs) = readString (c :: read) cs := by
  rcases escape_cases c with
    ⟨letter, written, code, meaning⟩ | ⟨control, written⟩ | ⟨written, quote, slash, control⟩
  · simp [written, readString, meaning]
  · have single : ¬ (0xDC00 ≤ c.toNat ∧ c.toNat ≤ 0xDFFF) := by omega
    have low : c.toNat < 0xD800 ∨ 0xDBFF < c.toNat := by omega
    simp only [written, List.cons_append, List.nil_append, readString, hexValues?_control control,
      if_neg single, if_pos low, Char.ofNat_toNat]
  · simp [written, readString, control]

theorem readString_quoted (s : String) (rest : List Char) :
    readString [] (s.toList.flatMap escape ++ '"' :: rest) = .ok (s, rest) := by
  have step (read cs : List Char) :
      readString read (cs.flatMap escape ++ '"' :: rest) =
        .ok (String.ofList (read.reverse ++ cs), rest) := by
    induction cs generalizing read with
    | nil => simp [readString]
    | cons c cs ih => simp [readString_escape, ih]
  simpa using step [] s.toList

/-- Values that their text keeps: the numbers are integers of 64 bits, with or without sign, and the names
in an object are distinct. -/
inductive Exact : Json → Prop where
  | null : Exact .null
  | bool (b : Bool) : Exact (.bool b)
  | int {n : Int} (low : Int64.minValue.toInt ≤ n) (high : n < UInt64.size) : Exact (.number (.int n))
  | string (s : String) : Exact (.string s)
  | array {items : List Json} (exact : ∀ j ∈ items, Exact j) : Exact (.array items)
  | object {members : Members} (names : (members.map Prod.fst).Nodup)
    (exact : ∀ m ∈ members, Exact m.2) : Exact (.object members)

theorem skipBlank_cons {c : Char} (h : isBlank c = false) (cs : List Char) :
    skipBlank (c :: cs) = c :: cs := by
  simp [skipBlank, h]

theorem isBlank_of_isDigit {c : Char} (h : c.isDigit = true) : isBlank c = false := by
  rw [Bool.eq_false_iff]
  intro blank
  simp only [isBlank, Bool.or_eq_true, beq_iff_eq] at blank
  rcases blank with ((rfl | rfl) | rfl) | rfl <;> exact absurd h (by decide)

theorem readToken_digit {c : Char} (h : c.isDigit = true) (cs : List Char) :
    readToken (c :: cs) = (readNumber false (c :: cs)).map fun p => (.number p.1, p.2) := by
  unfold readToken
  rw [skipBlank_cons (isBlank_of_isDigit h)]
  split <;> simp_all

theorem readToken_null (rest : List Char) : readToken (chars .null ++ rest) = .ok (.null, rest) := by
  simp [chars, readToken, skipBlank, isBlank, readWord]

theorem readToken_bool (b : Bool) (rest : List Char) :
    readToken (chars (.bool b) ++ rest) = .ok (.bool b, rest) := by
  cases b <;> simp [chars, readToken, skipBlank, isBlank, readWord]

theorem quoted_append (s : String) (rest : List Char) :
    quoted s ++ rest = '"' :: (s.toList.flatMap escape ++ '"' :: rest) := by
  simp [quoted]

theorem readToken_quoted (s : String) (rest : List Char) :
    readToken (quoted s ++ rest) = .ok (.string s, rest) := by
  rw [quoted_append]
  show (readString [] _).map _ = _
  rw [readString_quoted]
  rfl

theorem readToken_intChars {n : Int} (low : Int64.minValue.toInt ≤ n) (high : n < UInt64.size)
    {rest : List Char} (hr : Ends rest) :
    readToken (intChars n ++ rest) = .ok (.number (.int n), rest) := by
  have low : -9223372036854775808 ≤ n := low
  have high : n < 18446744073709551616 := high
  have bound : maxSignificand = 18446744073709551615 := rfl
  by_cases sign : n < 0
  · -- minus zero is no integer, but no integer is written with a minus before zero
    have within : ¬ (n.natAbs = 0 ∨ n.natAbs > 9223372036854775808) := by omega
    have value : -(n.natAbs : Int) = n := by omega
    have number : integerOf true n.natAbs = .int n := by
      rw [integerOf, Bool.not_true, if_neg Bool.false_ne_true, if_neg within, value]
    have read := readNumber_toDigits true (by omega : n.natAbs ≤ maxSignificand) hr
    rw [intChars, if_pos sign]
    show (readNumber true (Nat.toDigits 10 n.natAbs ++ rest)).map _ = _
    rw [read, number]
    rfl
  · have number : integerOf false n.natAbs = .int n := by simp [integerOf]; omega
    have read := readNumber_toDigits false (by omega : n.natAbs ≤ maxSignificand) hr
    obtain ⟨c, cs, digits, digit⟩ := toDigits_cons n.natAbs
    rw [intChars, if_neg sign, List.nil_append]
    rw [digits] at read ⊢
    rw [List.cons_append, readToken_digit digit, ← List.cons_append, read, number]
    rfl

def Reads (item : Reader Json) (j : Json) : Prop :=
  ∀ rest, Ends rest → item (j.chars ++ rest) = .ok (j, rest)

theorem chars_cons {j : Json} (h : j.Exact) :
    ∃ c cs, j.chars = c :: cs ∧ isBlank c = false ∧ c ≠ ']' := by
  cases h with
  | null => exact ⟨_, _, rfl, rfl, by decide⟩
  | bool b => cases b <;> exact ⟨_, _, rfl, rfl, by decide⟩
  | string s => exact ⟨_, _, rfl, rfl, by decide⟩
  | @int n _ _ =>
    obtain ⟨c, cs, digits, digit⟩ := toDigits_cons n.natAbs
    by_cases sign : n < 0
    · exact ⟨'-', _, by rw [chars, Number.chars, intChars, if_pos sign, digits]; rfl, rfl, by decide⟩
    · refine ⟨c, cs, ?_, isBlank_of_isDigit digit, ?_⟩
      · simp [chars, Number.chars, intChars, sign, digits]
      rintro rfl
      exact absurd digit (by decide)
  | @array items _ => cases items <;> exact ⟨'[', _, rfl, rfl, by decide⟩
  | @object members _ _ => cases members <;> exact ⟨'\x7b', _, rfl, rfl, by decide⟩

theorem ends_itemsTail (js : List Json) (rest : List Char) : Ends (itemsTail js ++ rest) := by
  cases js <;> simp [Ends, itemsTail, isExponentMark]

theorem ends_membersTail (ms : Members) (rest : List Char) : Ends (membersTail ms ++ rest) := by
  cases ms <;> simp [Ends, membersTail, isExponentMark]

theorem readItems_first {item : Reader Json} {j : Json} (h : j.Exact) {fuel : Nat} {rest after : List Char}
    {js : List Json} (read : item (j.chars ++ rest) = .ok (j, rest))
    (others : readItems item fuel false rest = .ok (js, after)) :
    readItems item (fuel + 1) true (j.chars ++ rest) = .ok (j :: js, after) := by
  obtain ⟨c, cs, written, blank, bracket⟩ := chars_cons h
  have skip := skipBlank_cons blank (cs ++ rest)
  rw [written, List.cons_append] at read ⊢
  simp [readItems, skip, read, others, bind, Except.bind, pure, Except.pure]

theorem readItems_next {item : Reader Json} {j : Json} (h : j.Exact) {fuel : Nat} {rest after : List Char}
    {js : List Json} (read : item (j.chars ++ rest) = .ok (j, rest))
    (others : readItems item fuel false rest = .ok (js, after)) :
    readItems item (fuel + 1) false (',' :: (j.chars ++ rest)) = .ok (j :: js, after) := by
  obtain ⟨c, cs, written, blank, bracket⟩ := chars_cons h
  have comma := skipBlank_cons (rfl : isBlank ',' = false) (c :: (cs ++ rest))
  have skip := skipBlank_cons blank (cs ++ rest)
  rw [written, List.cons_append] at read ⊢
  simp only [readItems, comma, Char.reduceEq, imp_self, Bool.false_eq_true, ↓reduceIte, skip]
  split
  next closed => cases closed
  next closed => exact absurd (List.cons.inj closed).1 bracket
  next => simp [read, others, bind, Except.bind, pure, Except.pure]

theorem readItems_itemsTail {item : Reader Json} {js : List Json} (exact : ∀ j ∈ js, j.Exact)
    (reads : ∀ j ∈ js, Reads item j) {fuel : Nat} (hf : js.length < fuel) (rest : List Char) :
    readItems item fuel false (itemsTail js ++ rest) = .ok (js, rest) := by
  induction js generalizing fuel with
  | nil =>
    cases fuel with
    | zero => exact absurd hf (Nat.not_lt_zero _)
    | succ fuel => rfl
  | cons j js ih =>
    cases fuel with
    | zero => exact absurd hf (Nat.not_lt_zero _)
    | succ fuel =>
      have first := reads j List.mem_cons_self _ (ends_itemsTail js rest)
      have others := ih (fun j hj => exact j (List.mem_cons_of_mem _ hj))
        (fun j hj => reads j (List.mem_cons_of_mem _ hj)) (Nat.lt_of_succ_lt_succ hf)
      rw [itemsTail, List.cons_append, List.append_assoc]
      exact readItems_next (exact j List.mem_cons_self) first others

theorem length_itemsTail (js : List Json) : js.length < (itemsTail js).length := by
  induction js with
  | nil => exact Nat.zero_lt_one
  | cons j js ih =>
    simp only [itemsTail, List.length_cons, List.length_append]
    omega

theorem readItems_array {item : Reader Json} {js : List Json} (exact : ∀ j ∈ js, j.Exact)
    (reads : ∀ j ∈ js, Reads item j) (rest : List Char) :
    ∃ cs, chars (.array js) = '[' :: cs ∧
      readItems item ((cs ++ rest).length + 1) true (cs ++ rest) = .ok (js, rest) := by
  cases js with
  | nil => exact ⟨_, rfl, rfl⟩
  | cons j js =>
    have fits : js.length < (j.chars ++ itemsTail js ++ rest).length := by
      have := length_itemsTail js
      simp only [List.length_append]
      omega
    have first := reads j List.mem_cons_self _ (ends_itemsTail js rest)
    have others := readItems_itemsTail (fun j hj => exact j (List.mem_cons_of_mem _ hj))
      (fun j hj => reads j (List.mem_cons_of_mem _ hj)) fits rest
    refine ⟨_, rfl, ?_⟩
    rw [List.append_assoc] at others ⊢
    exact readItems_first (exact j List.mem_cons_self) first others

/-- The step over a member, once what divides it from the members before has been read. -/
theorem readMembers_member {value : Reader Json} {k : String} {j : Json} {fuel : Nat} {first : Bool}
    {cs rest after : List Char} {ms : Members}
    (next : nextMember first cs = .ok (.name (k.toList.flatMap escape ++ '"' :: ':' :: (j.chars ++ rest))))
    (read : value (j.chars ++ rest) = .ok (j, rest))
    (others : readMembers value fuel false rest = .ok (ms, after)) :
    readMembers value (fuel + 1) first cs = .ok ((k, j) :: ms, after) := by
  have name := readString_quoted k (':' :: (j.chars ++ rest))
  have colon : colon (':' :: (j.chars ++ rest)) = .ok (j.chars ++ rest) := rfl
  simp [readMembers, next, name, colon, read, others, bind, Except.bind, pure, Except.pure]

theorem readMembers_membersTail {value : Reader Json} {ms : Members} (reads : ∀ m ∈ ms, Reads value m.2)
    {fuel : Nat} (hf : ms.length < fuel) (rest : List Char) :
    readMembers value fuel false (membersTail ms ++ rest) = .ok (ms, rest) := by
  induction ms generalizing fuel with
  | nil =>
    cases fuel with
    | zero => exact absurd hf (Nat.not_lt_zero _)
    | succ fuel => rfl
  | cons m ms ih =>
    obtain ⟨k, j⟩ := m
    cases fuel with
    | zero => exact absurd hf (Nat.not_lt_zero _)
    | succ fuel =>
      have first := reads (k, j) List.mem_cons_self _ (ends_membersTail ms rest)
      have others := ih (fun m hm => reads m (List.mem_cons_of_mem _ hm)) (Nat.lt_of_succ_lt_succ hf)
      refine readMembers_member ?_ first others
      simp only [membersTail, List.cons_append, List.append_assoc, quoted_append]
      rfl

theorem length_membersTail (ms : Members) : ms.length < (membersTail ms).length := by
  induction ms with
  | nil => exact Nat.zero_lt_one
  | cons m ms ih =>
    simp only [membersTail, List.length_cons, List.length_append]
    omega

theorem readMembers_object {value : Reader Json} {ms : Members} (reads : ∀ m ∈ ms, Reads value m.2)
    (rest : List Char) :
    ∃ cs, chars (.object ms) = '\x7b' :: cs ∧
      readMembers value ((cs ++ rest).length + 1) true (cs ++ rest) = .ok (ms, rest) := by
  cases ms with
  | nil => exact ⟨_, rfl, rfl⟩
  | cons m ms =>
    obtain ⟨k, j⟩ := m
    refine ⟨_, rfl, ?_⟩
    have first := reads (k, j) List.mem_cons_self _ (ends_membersTail ms rest)
    refine readMembers_member ?_ first (readMembers_membersTail
      (fun m hm => reads m (List.mem_cons_of_mem _ hm)) ?_ rest)
    · simp only [List.cons_append, List.append_assoc, quoted_append]
      rfl
    · have := length_membersTail ms
      simp only [List.length_cons, List.length_append]
      omega

theorem readValue_atom {room : Nat} {cs rest : List Char} {t : Token} {j : Json}
    (token : readToken cs = .ok (t, rest)) (value : t.atom = .ok j) : readValue room cs = .ok (j, rest) := by
  cases room with
  | zero => simp [readValue, token, value, bind, Except.bind, pure, Except.pure]
  | succ room =>
    cases t <;> cases value <;> simp [readValue, token, Token.atom, bind, Except.bind, pure, Except.pure]

theorem readValue_openArray {room : Nat} {cs rest : List Char} (h : readToken cs = .ok (.openArray, rest)) :
    readValue (room + 1) cs =
      (readItems (readValue room) (rest.length + 1) true rest).map fun p => (.array p.1, p.2) := by
  simp only [readValue, h, bind, Except.bind]
  cases readItems (readValue room) (rest.length + 1) true rest <;> rfl

theorem readValue_openObject {room : Nat} {cs rest : List Char} (h : readToken cs = .ok (.openObject, rest)) :
    readValue (room + 1) cs =
      (readMembers (readValue room) (rest.length + 1) true rest).map fun p => (.object p.1, p.2) := by
  simp only [readValue, h, bind, Except.bind]
  cases readMembers (readValue room) (rest.length + 1) true rest <;> rfl

theorem depth_le_depthItems {js : List Json} {j : Json} (h : j ∈ js) : j.depth ≤ depthItems js := by
  induction js with
  | nil => cases h
  | cons i js ih =>
    simp only [depthItems]
    rcases List.mem_cons.1 h with rfl | h
    · omega
    · have := ih h
      omega

theorem depth_le_depthMembers {ms : Members} {m : String × Json} (h : m ∈ ms) :
    m.2.depth ≤ depthMembers ms := by
  induction ms with
  | nil => cases h
  | cons i ms ih =>
    simp only [depthMembers]
    rcases List.mem_cons.1 h with rfl | h
    · omega
    · have := ih h
      omega

/-- A value is read from its text, over whatever follows, if there is room for its containers. -/
theorem reads_readValue {j : Json} (h : j.Exact) {room : Nat} (hd : j.depth ≤ room) :
    Reads (readValue room) j := by
  induction h generalizing room with
  | null => exact fun rest _ => readValue_atom (readToken_null rest) rfl
  | bool b => exact fun rest _ => readValue_atom (readToken_bool b rest) rfl
  | int low high => exact fun rest hr => readValue_atom (readToken_intChars low high hr) rfl
  | string s => exact fun rest _ => readValue_atom (readToken_quoted s rest) rfl
  | @array items exact ih =>
    cases room with
    | zero => exact absurd hd (Nat.not_succ_le_zero _)
    | succ room =>
      intro rest _
      -- a container takes one level of room, and its items are no deeper than what is left
      have reads : ∀ j ∈ items, Reads (readValue room) j := fun j hj =>
        ih j hj (Nat.le_trans (depth_le_depthItems hj) (Nat.le_of_succ_le_succ hd))
      obtain ⟨cs, written, read⟩ := readItems_array exact reads rest
      rw [written, List.cons_append, readValue_openArray rfl, read]
      rfl
  | @object members _ _ ih =>
    cases room with
    | zero => exact absurd hd (Nat.not_succ_le_zero _)
    | succ room =>
      intro rest _
      have reads : ∀ m ∈ members, Reads (readValue room) m.2 := fun m hm =>
        ih m hm (Nat.le_trans (depth_le_depthMembers hm) (Nat.le_of_succ_le_succ hd))
      obtain ⟨cs, written, read⟩ := readMembers_object reads rest
      rw [written, List.cons_append, readValue_openObject rfl, read]
      rfl

theorem put_of_not_mem {ms : Members} {k : String} (h : k ∉ ms.map Prod.fst) (v : Json) :
    ms.put k v = ms ++ [(k, v)] := by
  induction ms with
  | nil => rfl
  | cons m ms ih =>
    simp only [List.map_cons, List.mem_cons, not_or] at h
    simp [Members.put, Ne.symm h.1, ih h.2]

theorem foldl_put {acc ms : Members} (h : ((acc ++ ms).map Prod.fst).Nodup) :
    ms.foldl (fun acc m => acc.put m.1 m.2) acc = acc ++ ms := by
  induction ms generalizing acc with
  | nil => simp
  | cons m ms ih =>
    have fresh : m.1 ∉ acc.map Prod.fst := by
      intro seen
      rw [List.map_append, List.nodup_append] at h
      exact h.2.2 _ seen _ List.mem_cons_self rfl
    rw [List.append_cons] at h ⊢
    rw [List.foldl_cons, put_of_not_mem fresh, ih h]

theorem collapseItems_eq {js : List Json} (h : ∀ j ∈ js, j.collapse = j) : collapseItems js = js := by
  induction js with
  | nil => rfl
  | cons j js ih =>
    rw [collapseItems, h j List.mem_cons_self, ih fun j hj => h j (List.mem_cons_of_mem _ hj)]

theorem collapseMembers_eq {ms : Members} (h : ∀ m ∈ ms, m.2.collapse = m.2) :
    collapseMembers ms = ms := by
  induction ms with
  | nil => rfl
  | cons m ms ih =>
    rw [collapseMembers, h m List.mem_cons_self, ih fun m hm => h m (List.mem_cons_of_mem _ hm)]

theorem collapse_eq {j : Json} (h : j.Exact) : j.collapse = j := by
  induction h with
  | null => rfl
  | bool b => rfl
  | int low high => rfl
  | string s => rfl
  | array exact ih => rw [collapse, collapseItems_eq ih]
  | object names exact ih =>
    rw [collapse, collapseMembers_eq ih, Members.distinct, @foldl_put [] _ names, List.nil_append]

theorem parse_text {j : Json} (h : j.Exact) (hd : j.depth ≤ maxDepth) : parse j.text = .ok j := by
  have read := reads_readValue h hd [] ends_nil
  rw [List.append_nil] at read
  simp [parse, text, read, collapse_eq h, atEnd, skipBlank, bind, Except.bind, pure, Except.pure]

end SqlDialect.Json
