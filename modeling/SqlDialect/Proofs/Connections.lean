import SqlDialect.Tree.Build
import SqlDialect.Warehouse.Connection

set_option autoImplicit false

namespace SqlDialect.Warehouse

/-- How a call takes what comes back: at once, or item by item up to a limit. -/
inductive Mode where
  | whole
  | streamed (limit : Option Nat)

def Mode.operation : Mode → Operation
  | .whole => .query
  | .streamed _ => .stream

def Call.query? : Call → Option (Compiled × Mode)
  | .execute n => some (Dialect.bigQuery.compile n, .whole)
  | .executeQuery c => some (c, .whole)
  | .stream c limit => some (c, .streamed limit)
  | _ => none

def Client.answer {σ : Type} (client : Client σ) (request : Request) (s : σ) : Mode → Reply (List Item) × σ
  | .whole => ((client.query request s).1.map (List.map .ok), (client.query request s).2)
  | .streamed _ => client.stream request s

/-- The outcome of a call that is answered with `reply`. -/
inductive Fits (r : Registry) : Mode → Reply (List Item) → Outcome → Prop where
  | rows (rows : List Row) : Fits r .whole (.ok (rows.map .ok)) (.rows (rows.map (Row.decode r)))
  | items {limit : Option Nat} {items : List Item} {out : List (Except Error Row)}
      (count : out.length = min (limit.getD items.length) items.length)
      (row : ∀ j row, j < out.length → items[j]? = some (.ok row) →
        out[j]? = some (.ok (Row.decode r row)))
      (fault : ∀ j e, j < out.length → items[j]? = some (.error e) →
        out[j]? = some (.error (.ofClient .stream e))) :
      Fits r (.streamed limit) (.ok items) (.items out out.length)
  | failed (mode : Mode) (e : ClientError) :
      Fits r mode (.error e) (.failed (.ofClient mode.operation e))

theorem pull_eq (r : Registry) (limit : Option Nat) (items : List Item) :
    pull r limit items = ((items.take (limit.getD items.length)).map (decodeItem r),
      items.drop (limit.getD items.length)) := by
  fun_induction pull r limit items with
  | case1 left => simp
  | case2 limit => simp
  | case3 limit item left more rows rest hpull ih =>
    rw [hpull] at ih
    obtain ⟨rfl, rfl⟩ := Prod.mk.inj ih
    cases limit with
    | none => simp
    | some n =>
      cases n with
      | zero => exact absurd rfl more
      | succ n => simp

/-- What has been asked for is what has been handed over. -/
theorem fits_pull (r : Registry) (limit : Option Nat) (items : List Item) :
    Fits r (.streamed limit) (.ok items)
      (.items (pull r limit items).1 (items.length - (pull r limit items).2.length)) := by
  have taken : (pull r limit items).1 = (items.take (limit.getD items.length)).map (decodeItem r) := by
    rw [pull_eq]
  have count : (pull r limit items).1.length = min (limit.getD items.length) items.length := by
    simp [taken]
  have asked : items.length - (pull r limit items).2.length = (pull r limit items).1.length := by
    rw [count, pull_eq, List.length_drop]
    omega
  have image (j : Nat) (item : Item) (hj : j < (pull r limit items).1.length) (h : items[j]? = some item) :
      (pull r limit items).1[j]? = some (decodeItem r item) := by
    have within : j < limit.getD items.length := by omega
    simp [taken, within, h]
  rw [asked]
  exact .items count (fun j row hj h => image j (.ok row) hj h) fun j e hj h => image j (.error e) hj h

variable {σ : Type} (r : Registry) (client : Client σ)

/-- A step sends one request and hands over the answer to it. -/
structure Step.Answers (request : Request) (mode : Mode) (s : σ) (step : Step σ) : Prop where
  sent : step.sent = [request]
  reply : ∃ reply, client.answer request s mode = (reply, step.state) ∧ Fits r mode reply step.outcome

theorem run_answers (request : Request) (s : σ) :
    (run r client request s).Answers r client request .whole s := by
  unfold run
  split
  · rename_i rows s' replied
    exact ⟨rfl, .ok (rows.map .ok), by rw [Client.answer, replied]; rfl, .rows rows⟩
  · rename_i e s' replied
    exact ⟨rfl, .error e, by rw [Client.answer, replied]; rfl, .failed .whole e⟩

theorem runStream_answers (request : Request) (limit : Option Nat) (s : σ) :
    (runStream r client request limit s).Answers r client request (.streamed limit) s := by
  unfold runStream
  split
  · rename_i items s' replied
    exact ⟨rfl, .ok items, replied, fits_pull r limit items⟩
  · rename_i e s' replied
    exact ⟨rfl, .error e, replied, .failed (.streamed limit) e⟩

theorem call_answers {c : Call} {q : Compiled} {mode : Mode} (h : c.query? = some (q, mode)) (s : σ) :
    (call r client c s).Answers r client (Request.prepare r q) mode s := by
  cases c with
  | execute n =>
    cases h
    exact run_answers r client _ s
  | executeQuery q =>
    cases h
    exact run_answers r client _ s
  | stream q limit =>
    cases h
    exact runStream_answers r client _ limit s
  | _ => contradiction

def stateAfter (cs : List Call) (s : σ) : σ :=
  cs.foldl (fun s c => (call r client c s).state) s

theorem calls_getElem? {cs : List Call} {i : Nat} {c : Call} (h : cs[i]? = some c) (s : σ) :
    (calls r client cs s)[i]? = some (call r client c (stateAfter r client (cs.take i) s)) := by
  induction cs generalizing i s with
  | nil => contradiction
  | cons first cs ih =>
    cases i with
    | zero =>
      obtain rfl : first = c := by simpa using h
      rfl
    | succ i => exact ih (by simpa using h) (call r client first s).state

/-- Where both replies hold the same rows, a stream hands over the rows of the whole answer up to its limit,
and asks for no more. -/
theorem stream_agrees {q : Compiled} {s s₁ s₂ : σ} {rows : List Row}
    (whole : client.query (Request.prepare r q) s = (.ok rows, s₁))
    (streamed : client.stream (Request.prepare r q) s = (.ok (rows.map .ok), s₂)) (limit : Option Nat) :
    ∃ out, (call r client (.executeQuery q) s).outcome = .rows out ∧
      (call r client (.stream q limit) s).outcome =
        .items ((out.take (limit.getD out.length)).map .ok) (min (limit.getD out.length) out.length) := by
  refine ⟨rows.map (Row.decode r), by simp [call, run, whole], ?_⟩
  have images : (rows.map .ok).map (decodeItem r) = (rows.map (Row.decode r)).map .ok := by
    rw [List.map_map, List.map_map]
    rfl
  have asked (n : Nat) : rows.length - (rows.length - n) = min n rows.length := by omega
  simp [call, runStream, streamed, pull_eq, List.map_take, images, asked]

/-- In every run, each call that runs a query sends the request which that query alone prepares, and its
outcome is the answer to it in the state that the earlier calls have left. -/
theorem calls_answered (cs : List Call) (s : σ) (i : Nat) (c : Call) (q : Compiled) (mode : Mode)
    (hi : cs[i]? = some c) (hc : c.query? = some (q, mode)) :
    let request := Request.prepare r q
    let found := stateAfter r client (cs.take i) s
    (∃ step, (calls r client cs s)[i]? = some step ∧ step.Answers r client request mode found) ∧
      ∀ (rows : List Row) (limit : Option Nat) (s₁ s₂ : σ), client.query request found = (.ok rows, s₁) →
        client.stream request found = (.ok (rows.map .ok), s₂) →
          ∃ out, (call r client (.executeQuery q) found).outcome = .rows out ∧
            (call r client (.stream q limit) found).outcome =
              .items ((out.take (limit.getD out.length)).map .ok)
                (min (limit.getD out.length) out.length) := by
  intro request found
  refine ⟨⟨_, calls_getElem? r client hi s, call_answers r client hc found⟩, ?_⟩
  intro rows limit s₁ s₂ whole streamed
  exact stream_agrees r client whole streamed limit

def scripted : Client (List (Reply (List Row))) where
  query _ replies := (replies.headD (.ok []), replies.tail)
  stream _ replies := ((replies.headD (.ok [])).map (List.map .ok), replies.tail)
  datasets replies := (.ok [], replies)

theorem calls_answered_scripted :
    let r := Registry.empty.register "app.users" ["metadata"]
    let q := Dialect.generic.compile (.mk (.select (Select.ofTable "app.users")))
    let rows : List Row := [[("metadata", .string "[1]")], [("metadata", .string "[")], []]
    let cs : List Call := [.execute q.query, .stream q (some 2), .executeQuery q]
    let script : List (Reply (List Row)) := [.error (.api "quota exceeded"), .ok rows]
    cs[1]? = some (.stream q (some 2)) ∧
      (∃ step, (calls r scripted cs script)[1]? = some step ∧
        step.Answers r scripted (Request.prepare r q) (.streamed (some 2)) [.ok rows]) ∧
      ∃ out, (call r scripted (.executeQuery q) [.ok rows]).outcome = .rows out ∧
        (call r scripted (.stream q (some 2)) [.ok rows]).outcome =
          .items ((out.take 2).map .ok) (min 2 out.length) := by
  intro r q rows cs script
  obtain ⟨answered, agrees⟩ := calls_answered r scripted cs script 1 (.stream q (some 2)) q _ rfl rfl
  exact ⟨rfl, answered, agrees rows (some 2) [] [] rfl rfl⟩

end SqlDialect.Warehouse
