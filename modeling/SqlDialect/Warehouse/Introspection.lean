import SqlDialect.Text
import SqlDialect.Warehouse.Connection
import SqlDialect.Warehouse.Row

/-!
Introspection: the tables of all datasets, dataset by dataset in order of their names. The metadata of the
datasets is asked for in a window, so that several queries are under way at a time.
-/
set_option autoImplicit false

namespace SqlDialect

structure Window (α : Type) where
  waiting : List α
  /-- The jobs started and not handed over, and whether each has finished. -/
  flight : List (α × Bool) := []
  started : List α := []
  handed : List α := []
  /-- The largest number of jobs that were running at once. -/
  peak : Nat := 0

namespace Window

variable {α ε β : Type}

def running (w : Window α) : Nat :=
  w.flight.countP fun job => !job.2

def failed (answer : α → Except ε β) (w : Window α) : Bool :=
  w.handed.any fun a => !(answer a).isOk

def result (answer : α → Except ε β) (w : Window α) : Except ε (List β) :=
  w.handed.mapM answer

/-- Starts the next job, where there is a place for it. A job keeps its place until its result is handed over. -/
def startJob (capacity : Nat) (w : Window α) : Window α :=
  match w.waiting with
  | [] => w
  | a :: waiting =>
    if w.flight.length < capacity then
      { w with
        waiting
        flight := w.flight ++ [(a, false)]
        started := w.started ++ [a]
        peak := max w.peak (w.running + 1) }
    else w

def start (capacity count : Nat) (w : Window α) : Window α :=
  Nat.repeat (startJob capacity) (min count w.waiting.length) w

/-- Lets one of the running jobs finish, the one with the given number among them. -/
def finishJob : (number : Nat) → List (α × Bool) → List (α × Bool)
  | _, [] => []
  | number, (a, true) :: rest => (a, true) :: finishJob number rest
  | 0, (a, false) :: rest => (a, true) :: rest
  | number + 1, (a, false) :: rest => (a, false) :: finishJob number rest

def finish (choice : Nat) (w : Window α) : Window α :=
  { w with flight := finishJob (choice % w.running) w.flight }

def handOver (answer : α → Except ε β) (w : Window α) : Window α :=
  match w.flight with
  | (a, true) :: flight => if w.failed answer then w else { w with flight, handed := w.handed ++ [a] }
  | _ => w

def deliver (answer : α → Except ε β) (w : Window α) : Window α :=
  Nat.repeat (handOver answer) w.flight.length w

/-- Jobs are started, at least one where none is running; one job finishes; and results are handed over as
long as the head of the window has finished. A failure that was handed over ends the run. -/
def turn (capacity : Nat) (answer : α → Except ε β) (count choice : Nat) (w : Window α) : Window α :=
  if w.failed answer then w
  else ((w.start capacity (if w.running = 0 then max count 1 else count)).finish choice).deliver answer

/-- The window after as many turns as there are jobs. In turn `i` as many jobs as `starts i` are started, and
the one that `choose i` tells finishes. -/
def complete (capacity : Nat) (answer : α → Except ε β) (choose starts : Nat → Nat) (jobs : List α) :
    Window α :=
  (List.range jobs.length).foldl (fun w i => w.turn capacity answer (starts i) (choose i)) { waiting := jobs }

end Window

namespace Warehouse

/-- What the warehouse tells: the datasets, and the rows of metadata for each of them. -/
structure Catalog where
  datasets : Reply (List String)
  metadata : String → Reply (List Row)

namespace Catalog

def schemas (c : Catalog) : Except Error (List String) :=
  match c.datasets with
  | .ok names => .ok (Text.sort names)
  | .error e => .error (.ofClient .query e)

def datasetTables (c : Catalog) (dataset : String) : Except Error (List TableInfo) :=
  match c.metadata dataset with
  | .ok rows => .ok (groupColumns dataset rows)
  | .error e => .error (.ofClient .query e)

/-- The window in which the metadata of some datasets is asked for; one query may always run. -/
def window (c : Catalog) (concurrency : Nat) (choose starts : Nat → Nat) (names : List String) :
    Window String :=
  .complete (max concurrency 1) c.datasetTables choose starts names

structure Report where
  tables : Except Error (List TableInfo)
  /-- The metadata queries that were sent, in order. -/
  queries : List String
  peak : Nat

/-- The tables of all datasets. `choose` and `starts` decide when queries are sent and when they finish; unless
told otherwise, queries are sent as soon as there is room. -/
def report (c : Catalog) (concurrency : Nat) (choose : Nat → Nat)
    (starts : Nat → Nat := fun _ => concurrency) : Report :=
  match c.schemas with
  | .error e => ⟨.error e, [], 0⟩
  | .ok names =>
    let w := c.window concurrency choose starts names
    ⟨(w.result c.datasetTables).map List.flatten, w.started.map columnsQuery, w.peak⟩

end Catalog

end Warehouse

end SqlDialect
