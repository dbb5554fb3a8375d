import SqlDialect.Warehouse.Introspection

/-!
Scheduling. What is assumed of the library that runs the jobs is what each of its steps may do; it is left open
when it takes them. The results of a run do not depend on that.
-/
set_option autoImplicit false

namespace SqlDialect

namespace Window

variable {α ε β : Type} {capacity : Nat} {answer : α → Except ε β} {jobs : List α} {w w' : Window α}

/-- What the library may do next: it keeps at most `capacity` jobs running, starts them in the order given, and
hands over their results in the order given. -/
inductive Step (capacity : Nat) : Window α → Window α → Prop where
  | start {w : Window α} {a : α} {waiting : List α} (first : w.waiting = a :: waiting)
      (room : w.running < capacity) :
      Step capacity w { w with
        waiting
        flight := w.flight ++ [(a, false)]
        started := w.started ++ [a]
        peak := max w.peak (w.running + 1) }
  | finish {w : Window α} {before after : List (α × Bool)} {a : α}
      (runs : w.flight = before ++ (a, false) :: after) :
      Step capacity w { w with flight := before ++ (a, true) :: after }
  | deliver {w : Window α} {flight : List (α × Bool)} {a : α} (head : w.flight = (a, true) :: flight) :
      Step capacity w { w with flight, handed := w.handed ++ [a] }

/-- A run stops at the first failure that is handed over. -/
inductive Reachable (capacity : Nat) (answer : α → Except ε β) (jobs : List α) : Window α → Prop where
  | initial : Reachable capacity answer jobs { waiting := jobs }
  | step {w w' : Window α} : Reachable capacity answer jobs w → w.failed answer = false → Step capacity w w' →
      Reachable capacity answer jobs w'

/-- What is assumed of the library, as it shows at any moment of a run. -/
structure Buffered (capacity : Nat) (jobs : List α) (w : Window α) : Prop where
  bounded : w.running ≤ capacity
  startsInOrder : w.started <+: jobs
  yieldsInOrder : w.handed <+: w.started

structure Inv (capacity : Nat) (jobs : List α) (w : Window α) : Prop where
  split : w.started ++ w.waiting = jobs
  accounts : w.handed ++ w.flight.map Prod.fst = w.started
  bounded : w.running ≤ capacity
  peak_le : w.peak ≤ capacity

theorem Step.inv (step : Step capacity w w') (h : Inv capacity jobs w) : Inv capacity jobs w' := by
  obtain ⟨split, accounts, bounded, peak⟩ := h
  cases step with
  | start first room =>
    refine ⟨?_, ?_, ?_, ?_⟩
    · simpa [first] using split
    · simp [← accounts]
    · simpa [running, Nat.succ_le_iff] using room
    · exact Nat.max_le.mpr ⟨peak, room⟩
  | finish runs =>
    refine ⟨split, ?_, ?_, peak⟩
    · simpa [runs] using accounts
    · simp only [running, runs, List.countP_append, List.countP_cons] at bounded ⊢
      simp at bounded ⊢
      omega
  | deliver head =>
    refine ⟨split, ?_, ?_, peak⟩
    · simpa [head] using accounts
    · simpa [running, head] using bounded

theorem Reachable.inv (h : Reachable capacity answer jobs w) : Inv capacity jobs w := by
  induction h with
  | initial => exact ⟨rfl, rfl, Nat.zero_le _, Nat.zero_le _⟩
  | step _ _ step ih => exact step.inv ih

theorem Inv.buffered (h : Inv capacity jobs w) : Buffered capacity jobs w where
  bounded := h.bounded
  startsInOrder := ⟨w.waiting, h.split⟩
  yieldsInOrder := ⟨w.flight.map Prod.fst, h.accounts⟩

/-- A failure was handed over, or all results were. -/
def Over (answer : α → Except ε β) (jobs : List α) (w : Window α) : Prop :=
  w.failed answer = true ∨ w.handed = jobs

theorem Reachable.over_or_step (room : 0 < capacity) (h : Reachable capacity answer jobs w) :
    w.Over answer jobs ∨ ∃ w', Step capacity w w' := by
  obtain ⟨split, accounts, -, -⟩ := h.inv
  cases flight : w.flight with
  | nil =>
    cases waiting : w.waiting with
    | nil => exact .inl (.inr (by simpa [flight, waiting, ← accounts] using split))
    | cons a rest => exact .inr ⟨_, .start waiting (by simpa [running, flight] using room)⟩
  | cons job rest =>
    obtain ⟨a, finished⟩ := job
    cases finished with
    | false => exact .inr ⟨_, .finish (show w.flight = [] ++ (a, false) :: rest from flight)⟩
    | true => exact .inr ⟨_, .deliver flight⟩

def unfinished (w : Window α) : Nat :=
  w.waiting.length + w.running

theorem Step.unfinished_le (step : Step capacity w w') : w'.unfinished ≤ w.unfinished := by
  cases step with
  | start first room => simp [unfinished, running, first]; omega
  | finish runs => simp [unfinished, running, runs]
  | deliver head => simp [unfinished, running, head]

def work (w : Window α) : Nat :=
  w.unfinished + w.flight.length + 2 * w.waiting.length

theorem Step.work_lt (step : Step capacity w w') : w'.work < w.work := by
  cases step with
  | start first room => simp [work, unfinished, running, first]; omega
  | finish runs => simp [work, unfinished, running, runs]
  | deliver head => simp [work, unfinished, running, head]

theorem wellFounded_step (capacity : Nat) : WellFounded fun w' w : Window α => Step capacity w w' :=
  Subrelation.wf (fun {_ _} step => step.work_lt) (measure work).wf

theorem mapM_ok {jobs : List α} {results : List β} (h : jobs.map answer = results.map .ok) :
    jobs.mapM answer = .ok results := by
  induction jobs generalizing results with
  | nil => simp_all [pure, Except.pure]
  | cons a jobs ih =>
    cases results with
    | nil => contradiction
    | cons b results =>
      simp only [List.map_cons, List.cons.injEq] at h
      simp [List.mapM_cons, h.1, ih h.2, bind, Except.bind, pure, Except.pure]

theorem exists_results {jobs : List α} (h : ∀ a ∈ jobs, ∃ b, answer a = .ok b) :
    ∃ results : List β, jobs.map answer = results.map .ok := by
  induction jobs with
  | nil => exact ⟨[], rfl⟩
  | cons a jobs ih =>
    obtain ⟨⟨b, first⟩, rest⟩ := List.forall_mem_cons.mp h
    obtain ⟨results, others⟩ := ih rest
    exact ⟨b :: results, by simp [first, others]⟩

theorem mapM_error {before after : List α} {results : List β} {a : α} {e : ε}
    (h : before.map answer = results.map .ok) (failed : answer a = .error e) :
    (before ++ a :: after).mapM answer = .error e := by
  rw [List.mapM_append, mapM_ok h, List.mapM_cons, failed]
  rfl

theorem exists_mapM_error {handed : List α} (h : (handed.any fun a => !(answer a).isOk) = true) :
    ∃ e, handed.mapM answer = .error e := by
  induction handed with
  | nil => contradiction
  | cons a handed ih =>
    rw [List.mapM_cons]
    cases first : answer a with
    | error e => exact ⟨e, rfl⟩
    | ok b =>
      obtain ⟨e, rest⟩ := ih (by simpa [first, Except.isOk, Except.toBool] using h)
      exact ⟨e, by rw [rest]; rfl⟩

/-- A run that is over has given the results of the jobs one after the other, or the first failure. -/
theorem Buffered.result_eq (h : Buffered capacity jobs w) (ended : w.Over answer jobs) :
    w.result answer = jobs.mapM answer := by
  rcases ended with failed | all
  · obtain ⟨rest, hrest⟩ := h.yieldsInOrder.trans h.startsInOrder
    obtain ⟨e, failure⟩ := exists_mapM_error failed
    rw [result, ← hrest, List.mapM_append, failure]
    rfl
  · rw [result, all]

theorem Buffered.started_eq (h : Buffered capacity jobs w) (all : w.handed = jobs) : w.started = jobs := by
  have every := h.yieldsInOrder
  rw [all] at every
  exact h.startsInOrder.eq_of_length_le every.length_le

section Runs

variable {count choice : Nat} {choose starts : Nat → Nat}

theorem repeat_induction {motive : Window α → Prop} {f : Window α → Window α}
    (step : ∀ w, motive w → motive (f w)) (h : motive w) (n : Nat) : motive (Nat.repeat f n w) := by
  induction n with
  | zero => exact h
  | succ n ih => exact step _ ih

theorem startJob_cases (capacity : Nat) (w : Window α) :
    startJob capacity w = w ∨ Step capacity w (startJob capacity w) := by
  unfold startJob
  split
  · exact .inl rfl
  · next first =>
    split
    · next room => exact .inr (.start first (Nat.lt_of_le_of_lt List.countP_le_length room))
    · exact .inl rfl

theorem handed_startJob (capacity : Nat) (w : Window α) : (startJob capacity w).handed = w.handed := by
  unfold startJob
  split
  · rfl
  · split <;> rfl

theorem handed_start (capacity count : Nat) (w : Window α) : (w.start capacity count).handed = w.handed :=
  repeat_induction (motive := fun w' => w'.handed = w.handed) (fun _ h => (handed_startJob _ _).trans h) rfl _

theorem finishJob_eq {flight : List (α × Bool)} {number : Nat}
    (h : number < flight.countP fun job => !job.2) :
    ∃ before a after, flight = before ++ (a, false) :: after ∧
      finishJob number flight = before ++ (a, true) :: after := by
  induction flight generalizing number with
  | nil => simp at h
  | cons job flight ih =>
    obtain ⟨a, finished⟩ := job
    cases finished with
    | true =>
      obtain ⟨before, b, after, rfl, done⟩ := @ih number (by simpa using h)
      exact ⟨(a, true) :: before, b, after, rfl, by simp [finishJob, done]⟩
    | false =>
      cases number with
      | zero => exact ⟨[], a, flight, rfl, rfl⟩
      | succ number =>
        obtain ⟨before, b, after, rfl, done⟩ := @ih number (by simpa using h)
        exact ⟨(a, false) :: before, b, after, rfl, by simp [finishJob, done]⟩

theorem finishJob_of_none {flight : List (α × Bool)} (h : (flight.countP fun job => !job.2) = 0)
    (number : Nat) : finishJob number flight = flight := by
  induction flight with
  | nil => rfl
  | cons job flight ih =>
    obtain ⟨a, finished⟩ := job
    cases finished with
    | true => rw [finishJob, ih (by simpa using h)]
    | false => simp at h

theorem finish_cases (capacity choice : Nat) (w : Window α) :
    w.running = 0 ∧ w.finish choice = w ∨
      Step capacity w (w.finish choice) ∧ (w.finish choice).unfinished + 1 = w.unfinished := by
  by_cases h : w.running = 0
  · exact .inl ⟨h, by rw [finish, finishJob_of_none h]⟩
  · obtain ⟨before, a, after, flight, done⟩ := finishJob_eq (Nat.mod_lt choice (Nat.pos_of_ne_zero h))
    have done : w.finish choice = { w with flight := before ++ (a, true) :: after } :=
      congrArg (fun flight => { w with flight }) done
    rw [done]
    refine .inr ⟨.finish flight, ?_⟩
    simp [unfinished, running, flight]
    omega

theorem handOver_cases (capacity : Nat) (answer : α → Except ε β) (w : Window α) :
    handOver answer w = w ∨ w.failed answer = false ∧ Step capacity w (handOver answer w) := by
  unfold handOver
  split
  · next head =>
    split
    · exact .inl rfl
    · next fine => exact .inr ⟨by simpa using fine, .deliver head⟩
  · exact .inl rfl

/-- The head of the window waits for its job, unless the run has failed. -/
def Polled (answer : α → Except ε β) (w : Window α) : Prop :=
  w.failed answer = true ∨ ∀ job ∈ w.flight.head?, job.2 = false

theorem Polled.flight_eq_nil (h : w.Polled answer) (fine : ¬ w.failed answer = true) (idle : w.running = 0) :
    w.flight = [] := by
  have waits := h.resolve_left fine
  cases flight : w.flight with
  | nil => rfl
  | cons job rest =>
    have head : job.2 = false := waits job (by simp [flight])
    simp [running, flight, head] at idle

theorem handOver_polled (h : w.Polled answer) : handOver answer w = w := by
  unfold handOver
  split
  · next head =>
    rcases h with failed | waits
    · rw [if_pos failed]
    · simp [head] at waits
  · rfl

theorem length_handOver (h : ¬ w.Polled answer) : (handOver answer w).flight.length + 1 = w.flight.length := by
  obtain ⟨fine, finished⟩ := not_or.mp h
  unfold handOver
  split
  · next head => rw [if_neg fine, head, List.length_cons]
  · next other =>
    cases flight : w.flight with
    | nil => simp [flight] at finished
    | cons job rest =>
      obtain ⟨a, done⟩ := job
      simp only [flight, List.head?_cons, Option.mem_some_iff, forall_eq', Bool.not_eq_false] at finished
      exact absurd (finished ▸ flight) (other a rest)

theorem polled_deliver (answer : α → Except ε β) (w : Window α) : (w.deliver answer).Polled answer := by
  have each : ∀ n, (Nat.repeat (handOver answer) n w).Polled answer ∨
      (Nat.repeat (handOver answer) n w).flight.length + n ≤ w.flight.length := by
    intro n
    induction n with
    | zero => exact .inr (Nat.le_refl _)
    | succ n ih =>
      by_cases stuck : (Nat.repeat (handOver answer) n w).Polled answer
      · exact .inl (by rw [Nat.repeat, handOver_polled stuck]; exact stuck)
      · have shorter := length_handOver stuck
        have bound := ih.resolve_left stuck
        exact .inr (by rw [Nat.repeat]; omega)
  rcases each w.flight.length with stuck | bound
  · exact stuck
  · have empty : (w.deliver answer).flight = [] := List.eq_nil_of_length_eq_zero (by unfold deliver; omega)
    exact .inr (by simp [empty])

theorem unfinished_repeat_le {f : Window α → Window α} (each : ∀ w, f w = w ∨ Step capacity w (f w)) (n : Nat)
    (w : Window α) : (Nat.repeat f n w).unfinished ≤ w.unfinished := by
  refine repeat_induction (motive := fun w' => w'.unfinished ≤ w.unfinished) (fun w' h => ?_) (Nat.le_refl _) n
  rcases each w' with same | step
  · rwa [same]
  · exact Nat.le_trans step.unfinished_le h

theorem unfinished_start_le (capacity count : Nat) (w : Window α) :
    (w.start capacity count).unfinished ≤ w.unfinished :=
  unfinished_repeat_le (startJob_cases capacity) _ w

theorem unfinished_deliver_le (answer : α → Except ε β) (w : Window α) :
    (w.deliver answer).unfinished ≤ w.unfinished :=
  unfinished_repeat_le (fun w => (handOver_cases 0 answer w).imp_right And.right) _ w

theorem running_startJob (capacity : Nat) (w : Window α) : w.running ≤ (startJob capacity w).running := by
  unfold startJob
  split
  · exact Nat.le_refl _
  · split
    · simp [running]
    · exact Nat.le_refl _

theorem running_startJob_pos (room : w.flight.length < capacity) (waits : w.waiting ≠ []) :
    0 < (startJob capacity w).running := by
  unfold startJob
  split
  · contradiction
  · rw [if_pos room]
    simp [running]

theorem running_start_pos (h : 0 < w.running ∨ 0 < count ∧ w.flight.length < capacity ∧ w.waiting ≠ []) :
    0 < (w.start capacity count).running := by
  have grows : ∀ w' : Window α, 0 < w'.running → 0 < (startJob capacity w').running :=
    fun w' h => Nat.lt_of_lt_of_le h (running_startJob capacity w')
  rcases h with runs | ⟨some, room, waits⟩
  · exact repeat_induction (motive := fun w' => 0 < w'.running) grows runs _
  · obtain ⟨n, hn⟩ := Nat.exists_eq_succ_of_ne_zero
      (Nat.pos_iff_ne_zero.mp (Nat.lt_min.mpr ⟨some, List.length_pos_iff.mpr waits⟩))
    rw [start, hn]
    clear hn
    induction n with
    | zero => exact running_startJob_pos room waits
    | succ n ih => exact grows _ ih

namespace Reachable

theorem start (h : Reachable capacity answer jobs w) (fine : w.failed answer = false) (count : Nat) :
    Reachable capacity answer jobs (w.start capacity count) := by
  refine (repeat_induction (motive := fun w' => w'.handed = w.handed ∧ Reachable capacity answer jobs w')
    (fun w' ⟨same, h⟩ => ⟨(handed_startJob _ _).trans same, ?_⟩) ⟨rfl, h⟩ _).2
  rcases startJob_cases capacity w' with stays | step
  · rwa [stays]
  · exact h.step (by rw [failed, same]; exact fine) step

theorem deliver (h : Reachable capacity answer jobs w) : Reachable capacity answer jobs (w.deliver answer) := by
  refine repeat_induction (fun w' h => ?_) h _
  rcases handOver_cases capacity answer w' with stays | ⟨fine, step⟩
  · rwa [stays]
  · exact h.step fine step

end Reachable

/-- What the turns keep: the run is one that the library may take, it waits for a job at its head unless it has
failed, and at most `left` jobs have not finished. -/
structure Going (capacity : Nat) (answer : α → Except ε β) (jobs : List α) (left : Nat) (w : Window α) :
    Prop where
  reachable : Reachable capacity answer jobs w
  polled : w.Polled answer
  few : w.failed answer = true ∨ w.unfinished ≤ left

theorem Going.ends (h : Going capacity answer jobs 0 w) : w.Over answer jobs := by
  by_cases fine : w.failed answer = true
  · exact .inl fine
  · obtain ⟨split, accounts, -, -⟩ := h.reachable.inv
    obtain ⟨waiting, idle⟩ := Nat.add_eq_zero_iff.mp (Nat.le_zero.mp (h.few.resolve_left fine))
    rw [h.polled.flight_eq_nil fine idle, List.map_nil, List.append_nil] at accounts
    rw [← accounts, List.eq_nil_of_length_eq_zero waiting, List.append_nil] at split
    exact .inr split

theorem Going.turn {left : Nat} (room : 0 < capacity) (h : Going capacity answer jobs left w)
    (count choice : Nat) : Going capacity answer jobs (left - 1) (w.turn capacity answer count choice) := by
  unfold Window.turn
  split
  · next failed => exact ⟨h.reachable, h.polled, .inl failed⟩
  · next fine =>
    have few := h.few.resolve_left fine
    generalize amount : (if w.running = 0 then max count 1 else count) = amount'
    have begun := h.reachable.start (by simpa using fine) amount'
    have kept := unfinished_start_le capacity amount' w
    have after := unfinished_deliver_le answer ((w.start capacity amount').finish choice)
    rcases finish_cases capacity choice (w.start capacity amount') with ⟨idle, stays⟩ | ⟨step, fewer⟩
    · -- nothing is running only where nothing was left to start
      have none : w.unfinished = 0 := by
        have absent := fun some => Nat.ne_of_gt (@running_start_pos _ capacity w amount' some) idle
        have idle : w.running = 0 := Nat.eq_zero_of_not_pos fun runs => absent (.inl runs)
        have empty := h.polled.flight_eq_nil fine idle
        grind [unfinished]
      rw [stays] at after ⊢
      exact ⟨begun.deliver, polled_deliver _ _, .inr (by omega)⟩
    · have finished := begun.step (by rw [failed, handed_start]; simpa [failed] using fine) step
      exact ⟨finished.deliver, polled_deliver _ _, .inr (by omega)⟩

theorem going_complete (room : 0 < capacity) (answer : α → Except ε β) (choose starts : Nat → Nat)
    (jobs : List α) : Going capacity answer jobs 0 (complete capacity answer choose starts jobs) := by
  have each : ∀ n, Going capacity answer jobs (jobs.length - n)
      ((List.range n).foldl (fun w i => w.turn capacity answer (starts i) (choose i)) { waiting := jobs }) := by
    intro n
    induction n with
    | zero => exact ⟨.initial, .inr (by simp), .inr (by simp [unfinished, running])⟩
    | succ n ih =>
      rw [List.range_succ, List.foldl_append, ← Nat.sub_sub]
      exact ih.turn room _ _
  simpa [complete] using each jobs.length

end Runs

end Window

namespace Text

theorem perm_insertOrdered (s : String) (ts : List String) : (insertOrdered s ts).Perm (s :: ts) := by
  induction ts with
  | nil => exact .refl _
  | cons t ts ih =>
    unfold insertOrdered
    split
    · exact (ih.cons t).trans (.swap s t ts)
    · exact .refl _

theorem perm_sort (ss : List String) : (sort ss).Perm ss := by
  induction ss with
  | nil => exact .refl _
  | cons s ss ih => exact (perm_insertOrdered s _).trans (ih.cons s)

theorem sorted_insertOrdered {s : String} {ts : List String} (h : ts.Pairwise (· ≤ ·)) :
    (insertOrdered s ts).Pairwise (· ≤ ·) := by
  induction ts with
  | nil => simp [insertOrdered]
  | cons t ts ih =>
    obtain ⟨first, rest⟩ := List.pairwise_cons.mp h
    unfold insertOrdered
    split
    next smaller =>
      refine List.pairwise_cons.mpr ⟨fun u member => ?_, ih rest⟩
      rcases List.mem_cons.mp ((perm_insertOrdered s ts).mem_iff.mp member) with rfl | member
      · exact Std.le_of_lt smaller
      · exact first u member
    next larger =>
      have least : s ≤ t := String.not_lt.mp larger
      refine List.pairwise_cons.mpr ⟨fun u member => ?_, h⟩
      rcases List.mem_cons.mp member with rfl | member
      · exact least
      · exact String.le_trans least (first u member)

theorem sorted_sort (ss : List String) : (sort ss).Pairwise (· ≤ ·) := by
  induction ss with
  | nil => exact .nil
  | cons s ss ih => exact sorted_insertOrdered ih

end Text

namespace Warehouse.Catalog

/-- What is to be told of datasets with these names: their tables one dataset after the other, or the first
failure; the queries sent are those of the first datasets, and of all of them if none has failed. -/
structure Told (c : Catalog) (names : List String) (tables : Except Error (List TableInfo))
    (queries : List String) : Prop where
  ok : ∀ rows : String → List Row, (∀ name ∈ names, c.metadata name = .ok (rows name)) →
    tables = .ok (names.flatMap fun name => groupColumns name (rows name)) ∧
      queries = names.map columnsQuery
  error : ∀ before name after e, names = before ++ name :: after →
    (∀ b ∈ before, ∃ rows, c.metadata b = .ok rows) → c.metadata name = .error e →
      tables = .error (.ofClient .query e)
  sent : ∃ sent, sent <+: names ∧ queries = sent.map columnsQuery

theorem told_of_over {c : Catalog} {capacity : Nat} {names : List String} {w : Window String}
    (h : w.Buffered capacity names) (ended : w.Over c.datasetTables names) :
    c.Told names ((w.result c.datasetTables).map List.flatten) (w.started.map columnsQuery) where
  ok rows answered := by
    have each : ∀ name ∈ names, c.datasetTables name = .ok (groupColumns name (rows name)) :=
      fun name member => by simp [datasetTables, answered name member]
    have tables : names.map c.datasetTables =
        (names.map fun name => groupColumns name (rows name)).map .ok := by
      rw [List.map_map]
      exact List.map_congr_left each
    have all : w.handed = names := by
      refine ended.resolve_left fun failed => ?_
      obtain ⟨name, member, failure⟩ := List.any_eq_true.mp failed
      rw [each name ((h.yieldsInOrder.trans h.startsInOrder).subset member)] at failure
      contradiction
    rw [h.result_eq ended, Window.mapM_ok tables, h.started_eq all]
    exact ⟨rfl, rfl⟩
  error before name after e split answered failed := by
    have failure : c.datasetTables name = .error (.ofClient .query e) := by simp [datasetTables, failed]
    have before_ok : ∀ b ∈ before, ∃ tables, c.datasetTables b = .ok tables := by
      intro b member
      obtain ⟨rows, told⟩ := answered b member
      exact ⟨groupColumns b rows, by simp [datasetTables, told]⟩
    obtain ⟨results, told⟩ := Window.exists_results before_ok
    rw [h.result_eq ended, split, Window.mapM_error told failure]
    rfl
  sent := ⟨w.started, h.startsInOrder, rfl⟩

theorem one_may_run (concurrency : Nat) : 0 < max concurrency 1 :=
  Nat.lt_of_lt_of_le Nat.zero_lt_one (Nat.le_max_right _ _)

theorem going_window (c : Catalog) (concurrency : Nat) (choose starts : Nat → Nat) (names : List String) :
    Window.Going (max concurrency 1) c.datasetTables names 0 (c.window concurrency choose starts names) :=
  Window.going_complete (one_may_run concurrency) _ _ _ _

theorem told_report {c : Catalog} {names : List String} (listed : c.datasets = .ok names) (concurrency : Nat)
    (choose starts : Nat → Nat) :
    c.Told (Text.sort names) (c.report concurrency choose starts).tables
        (c.report concurrency choose starts).queries ∧
      (c.report concurrency choose starts).peak ≤ max concurrency 1 := by
  have schemas : c.schemas = .ok (Text.sort names) := by simp [Catalog.schemas, listed]
  have going := c.going_window concurrency choose starts (Text.sort names)
  simp only [report, schemas]
  exact ⟨told_of_over going.reachable.inv.buffered going.ends, going.reachable.inv.peak_le⟩

/-- Introspection does not depend on scheduling. Whenever queries are sent and in whatever order they finish, the
tables told are those of the datasets one after the other, or the first failure among them. This rests on what is
assumed of the library alone; the runs that its steps allow are all of that kind, go on until they are over, and
end. -/
theorem report_told (c : Catalog) (concurrency : Nat) (choose starts : Nat → Nat) :
    (∀ e, c.datasets = .error e →
      c.report concurrency choose starts = ⟨.error (.ofClient .query e), [], 0⟩) ∧
    ∀ datasets, c.datasets = .ok datasets →
      (Text.sort datasets).Perm datasets ∧ (Text.sort datasets).Pairwise (· ≤ ·) ∧
      c.Told (Text.sort datasets) (c.report concurrency choose starts).tables
        (c.report concurrency choose starts).queries ∧
      (c.report concurrency choose starts).peak ≤ max concurrency 1 ∧
      (∀ w : Window String, w.Reachable (max concurrency 1) c.datasetTables (Text.sort datasets) →
        w.Buffered (max concurrency 1) (Text.sort datasets) ∧
          (w.Over c.datasetTables (Text.sort datasets) ∨ ∃ w', w.Step (max concurrency 1) w')) ∧
      (WellFounded fun w' w : Window String => w.Step (max concurrency 1) w') ∧
      ∀ w : Window String, w.Buffered (max concurrency 1) (Text.sort datasets) →
        w.Over c.datasetTables (Text.sort datasets) →
          c.Told (Text.sort datasets) ((w.result c.datasetTables).map List.flatten)
            (w.started.map columnsQuery) := by
  refine ⟨fun e failed => ?_, fun datasets listed => ?_⟩
  · simp [report, schemas, failed]
  · obtain ⟨told, peak⟩ := told_report listed concurrency choose starts
    exact ⟨Text.perm_sort datasets, Text.sorted_sort datasets, told, peak,
      fun w reachable => ⟨reachable.inv.buffered, reachable.over_or_step (one_may_run concurrency)⟩,
      Window.wellFounded_step _, fun _ => told_of_over⟩

def guardedCatalog : Catalog where
  datasets := .ok ["sales", "web", "audit", "raw"]
  metadata name :=
    if name = "sales" then .error (.api "denied") else .ok [[("table_name", .string name)]]

/-- The failure stands, though the query before it finishes last. -/
theorem report_told_guarded :
    (guardedCatalog.report 3 fun i => 2 - i).tables = .error (.ofClient .query (.api "denied")) ∧
      (guardedCatalog.report 3 fun i => 2 - i).peak ≤ 3 := by
  obtain ⟨-, listed⟩ := report_told guardedCatalog 3 (fun i => 2 - i) fun _ => 3
  obtain ⟨-, -, told, peak, -⟩ := listed _ rfl
  refine ⟨told.error ["audit", "raw"] "sales" ["web"] (.api "denied") (by decide) ?_ rfl, peak⟩
  simp only [List.forall_mem_cons]
  exact ⟨⟨_, rfl⟩, ⟨_, rfl⟩, nofun⟩

/-- Queries that are answered at once are sent one by one, so none follows one that fails. -/
example : let w := guardedCatalog.window 3 (fun _ => 0) (fun _ => 1) ["audit", "raw", "sales", "web"]
    w.started = ["audit", "raw", "sales"] ∧ w.peak = 1 := by
  decide

end Warehouse.Catalog

end SqlDialect
