import SqlDialect.Warehouse.Request
import SqlDialect.Warehouse.Row

/-!
Connections. A connection turns each call into at most one request to a client of the warehouse and
decodes what comes back. The client is given from outside: it answers from a state of its own.
-/
set_option autoImplicit false

namespace SqlDialect.Warehouse

/-- What comes back from a client, or why nothing does. -/
abbrev Reply (α : Type) := Except ClientError α

abbrev Item := Reply Row

structure Client (σ : Type) where
  query : Request → σ → Reply (List Row) × σ
  stream : Request → σ → Reply (List Item) × σ
  datasets : σ → Reply (List String) × σ

inductive Call where
  | execute (n : Node)
  | executeQuery (c : Compiled)
  | executeSql (sql : String) (params : List Value)
  /-- Takes at most `limit` items of the stream. -/
  | stream (c : Compiled) (limit : Option Nat)
  | listDatasets
  | beginTransaction
  | commit
  | rollback

inductive Outcome where
  | rows (rows : List Row)
  /-- The items taken, and how many the client has produced for them. -/
  | items (items : List (Except Error Row)) (pulled : Nat)
  | datasets (names : List String)
  | failed (e : Error)

/-- What a call gives: its outcome, the requests that have reached the client, and the state in which
they leave it. -/
structure Step (σ : Type) where
  outcome : Outcome
  sent : List Request
  state : σ

def plainRequest (sql : String) (params : List Value) : Request :=
  ⟨sql, params, ParamType.infer? params⟩

def decodeItem (r : Registry) : Item → Except Error Row
  | .ok row => .ok (Row.decode r row)
  | .error e => .error (.ofClient .stream e)

/-- Takes items from a stream one after the other, each decoded as it comes. An item is asked for only when
it is wanted; what is left has not been asked for. -/
def pull (r : Registry) : (limit : Option Nat) → List Item → List (Except Error Row) × List Item
  | some 0, left => ([], left)
  | _, [] => ([], [])
  | limit, item :: left =>
    let (rows, left) := pull r (limit.map (· - 1)) left
    (decodeItem r item :: rows, left)

variable {σ : Type} (r : Registry) (client : Client σ)

def run (request : Request) (s : σ) : Step σ :=
  match client.query request s with
  | (.ok rows, s) => ⟨.rows (rows.map (Row.decode r)), [request], s⟩
  | (.error e, s) => ⟨.failed (.ofClient .query e), [request], s⟩

def runStream (request : Request) (limit : Option Nat) (s : σ) : Step σ :=
  match client.stream request s with
  | (.ok items, s) =>
    let (rows, left) := pull r limit items
    ⟨.items rows (items.length - left.length), [request], s⟩
  | (.error e, s) => ⟨.failed (.ofClient .stream e), [request], s⟩

def listDatasets (s : σ) : Step σ :=
  match client.datasets s with
  | (.ok names, s) => ⟨.datasets names, [], s⟩
  | (.error e, s) => ⟨.failed (.ofClient .query e), [], s⟩

def noTransactions (s : σ) : Step σ :=
  ⟨.failed (.unsupported "Transactions"), [], s⟩

def call (c : Call) (s : σ) : Step σ :=
  match c with
  | .execute n => run r client (Request.prepare r (Dialect.bigQuery.compile n)) s
  | .executeQuery c => run r client (Request.prepare r c) s
  | .executeSql sql params => run r client (plainRequest sql params) s
  | .stream c limit => runStream r client (Request.prepare r c) limit s
  | .listDatasets => listDatasets client s
  | .beginTransaction => noTransactions s
  | .commit => noTransactions s
  | .rollback => noTransactions s

/-- The steps of a run of calls, each from the state that the one before has left. -/
def calls : List Call → σ → List (Step σ)
  | [], _ => []
  | c :: cs, s =>
    let step := call r client c s
    step :: calls cs step.state

end SqlDialect.Warehouse
