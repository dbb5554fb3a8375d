import SqlDialect.Render.Dialect
import SqlDialect.Scan.SetList

set_option autoImplicit false

namespace SqlDialect.Scan

theorem State.after_append (s : State) (a b : List Char) : s.after (a ++ b) = (s.after a).after b :=
  List.foldl_append

theorem countFrom_append (s : State) (a b : List Char) :
    countFrom s (a ++ b) = countFrom s a + countFrom (s.after a) b := by
  induction a generalizing s with
  | nil => simp [countFrom, State.after]
  | cons c a ih =>
    have h := ih (s.next c)
    simp only [List.cons_append, countFrom, h, State.after, List.foldl_cons]
    omega

theorem maskFrom_append (s : State) (a b : List Char) :
    maskFrom s (a ++ b) = maskFrom s a ++ maskFrom (s.after a) b := by
  induction a generalizing s with
  | nil => rfl
  | cons c a ih =>
    have h := ih (s.next c)
    simp only [List.cons_append, maskFrom, h, List.append_assoc]
    rfl

section

variable {q : Char} (h : isQuote q = true)

include h

theorem ne_backslash : q ≠ '\\' := by
  intro e
  subst e
  contradiction

theorem ne_mark : q ≠ '?' := by
  intro e
  subst e
  contradiction

theorem next_opening : State.outside.next q = .inside q := by
  simp [State.next, h]

theorem next_closing : (State.inside q).next q = .outside := by
  simp [State.next, ne_backslash h]

end

/-- Text in which nothing is quoted. -/
def Unquoted (cs : List Char) : Prop :=
  ∀ c ∈ cs, isQuote c = false

instance (cs : List Char) : Decidable (Unquoted cs) :=
  List.decidableBAll (isQuote · = false) cs

theorem next_outside {c : Char} (h : isQuote c = false) : State.outside.next c = .outside := by
  simp [State.next, h]

theorem after_of_unquoted {cs : List Char} (h : Unquoted cs) :
    State.outside.after cs = .outside := by
  induction cs with
  | nil => rfl
  | cons c cs ih =>
    have hc : State.outside.next c = .outside := next_outside (h c List.mem_cons_self)
    have hcs := ih fun x hx => h x (List.mem_cons_of_mem c hx)
    rwa [State.after, List.foldl_cons, hc]

theorem mask_of_unquoted {cs : List Char} (h : Unquoted cs) : mask cs = cs := by
  unfold mask
  induction cs with
  | nil => rfl
  | cons c cs ih =>
    have hc : State.outside.next c = .outside := next_outside (h c List.mem_cons_self)
    have hcs := ih fun x hx => h x (List.mem_cons_of_mem c hx)
    simp [maskFrom, hc, hcs]

def Plain (cs : List Char) : Prop :=
  ∀ c ∈ cs, isQuote c = false ∧ c ≠ '?'

instance (cs : List Char) : Decidable (Plain cs) :=
  List.decidableBAll (fun c => isQuote c = false ∧ c ≠ '?') cs

theorem countFrom_of_plain {cs : List Char} (h : Plain cs) : countFrom .outside cs = 0 := by
  induction cs with
  | nil => rfl
  | cons c cs ih =>
    obtain ⟨hquote, hmark⟩ := h c List.mem_cons_self
    have hcs := ih fun x hx => h x (List.mem_cons_of_mem c hx)
    simp [countFrom, next_outside hquote, hcs, hmark]

/-- Text that opens no quote which it does not close, and marks no parameter. -/
def Closed (cs : List Char) : Prop :=
  State.outside.after cs = .outside ∧ countFrom .outside cs = 0

instance (cs : List Char) : Decidable (Closed cs) :=
  inferInstanceAs (Decidable (_ ∧ _))

theorem closed_of_plain {cs : List Char} (h : Plain cs) : Closed cs :=
  ⟨after_of_unquoted fun c hc => (h c hc).1, countFrom_of_plain h⟩

def escapeWith (q : Char) (cs : List Char) : List Char :=
  cs.flatMap fun c => if c = q then ['\\', q] else [c]

theorem escapeWith_cons (q c : Char) (cs : List Char) :
    escapeWith q (c :: cs) = (if c = q then ['\\', q] else [c]) ++ escapeWith q cs := rfl

theorem toList_quoteEscaped (q : Char) (name : String) :
    (quoteEscaped q name).toList = q :: escapeWith q name.toList ++ [q] :=
  String.toList_ofList

theorem after_escapeWith {q : Char} {cs : List Char} (h : '\\' ∉ cs) :
    (State.inside q).after (escapeWith q cs) = .inside q := by
  induction cs with
  | nil => rfl
  | cons c cs ih =>
    have hc : c ≠ '\\' := fun e => h (e ▸ List.mem_cons_self)
    have hcs := ih fun m => h (List.mem_cons_of_mem c m)
    rw [escapeWith_cons, State.after_append]
    by_cases e : c = q
    · simpa [e, State.after, State.next] using hcs
    · simpa [e, hc, State.after, State.next] using hcs

theorem countFrom_escapeWith {q : Char} {cs : List Char} (h : '\\' ∉ cs) :
    countFrom (.inside q) (escapeWith q cs) = 0 := by
  induction cs with
  | nil => rfl
  | cons c cs ih =>
    have hc : c ≠ '\\' := fun e => h (e ▸ List.mem_cons_self)
    have hcs := ih fun m => h (List.mem_cons_of_mem c m)
    rw [escapeWith_cons, countFrom_append]
    by_cases e : c = q
    · simpa [e, State.after, State.next, countFrom] using hcs
    · simpa [e, hc, State.after, State.next, countFrom] using hcs

theorem closed_quoteEscaped {q : Char} (hq : isQuote q = true) {name : String}
    (h : '\\' ∉ name.toList) : Closed (quoteEscaped q name).toList := by
  rw [toList_quoteEscaped]
  constructor
  · rw [List.cons_append, State.after, List.foldl_cons, next_opening hq, ← State.after, State.after_append,
      after_escapeWith h]
    simpa [State.after] using next_closing hq
  · simp only [List.cons_append, countFrom, next_opening hq, countFrom_append, after_escapeWith h,
      countFrom_escapeWith h]
    simp [ne_mark hq]

end SqlDialect.Scan
