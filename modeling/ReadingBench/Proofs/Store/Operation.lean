import ReadingBench.Proofs.Store.Action
import ReadingBench.Proofs.Store.Insertion

namespace ReadingBench.Store

open Sql Outcome

/-- A request of a client. -/
inductive Operation where
  | define (spec : TableSpec)
  | openSession
  | close (s : Session)
  | failNext (e : Error)
  | select (s : Session) (statement : Select)
  | insert (s : Session) (statement : Insert)
  | delete (s : Session) (statement : Delete)
  | execute (s : Session) (sql : String)
  | commit (s : Session)

/-- What comes back from a request that did not fail. -/
inductive Answer where
  | done
  | opened (s : Session)
  | rows (rows : List Row)
  | affected (count : Nat)

namespace Operation

def perform : Operation → Action Answer
  | define spec => fun server => (.ok .done, server.define spec)
  | openSession => fun server => (.ok (.opened (Session.openNew server).1), (Session.openNew server).2)
  | close s => fun server => (.ok .done, s.close server)
  | failNext e => fun server => (.ok .done, server.failNext e)
  | select s statement => return .rows (← s.select statement)
  | insert s statement => return .affected (← s.insert statement)
  | delete s statement => return .affected (← s.delete statement)
  | execute s sql => return .affected (← s.execute sql)
  | commit s => do
    s.commit
    return .done

/-- The insert that a request comes down to, with the session and the text that is logged. -/
def insert? : Operation → Option (Session × String × Insert)
  | insert s statement => some (s, statement.sql, statement)
  | execute s sql =>
    match Action.reading sql with
    | .ok (some statement) => some (s, sql, statement)
    | _ => none
  | _ => none

end Operation

namespace Server

/-- A server without tables. -/
def empty (clock : Nat → DateTime) : Server := ofSpecs clock []

def step (server : Server) (op : Operation) : Server := (op.perform server).2

def after (server : Server) (ops : List Operation) : Server := ops.foldl step server

/-- The states that requests lead to from a server without tables. -/
def Reachable (server : Server) : Prop := ∃ clock ops, server = (empty clock).after ops

theorem after_cons (server : Server) (op : Operation) (ops : List Operation) :
    server.after (op :: ops) = (server.step op).after ops := rfl

theorem getElem?_empty (clock : Nat → DateTime) (name : String) :
    (empty clock).tables[name]? = none := by
  simp [empty, ofSpecs]

end Server

/-- The tables before and after each tuple that a request applies. -/
def Operation.tupleSteps (op : Operation) (server : Server) : List (Table × Table) :=
  match op.insert? with
  | some (s, sql, statement) =>
    match s.receive sql server with
    | (.ok _, server) =>
      match server.table? statement.table with
      | some t => t.insertSteps (server.clock server.log.size) statement
      | none => []
    | (.error _, _) => []
  | none => []

namespace Server

/-- No tuple of the requests gives a stored row a key that another row holds. -/
def CollisionFree : Server → List Operation → Prop
  | _, [] => True
  | server, op :: ops =>
    (∀ p ∈ op.tupleSteps server, ¬Table.Collision p.1 p.2) ∧ (server.step op).CollisionFree ops

/-- All tables that the requests lead through: those stored before and after each of them, and those
that an insert works on between its tuples. -/
def passed (server : Server) : List Operation → List Table
  | [] => server.tables.toList.map (·.2)
  | op :: ops =>
    server.tables.toList.map (·.2) ++ (op.tupleSteps server).map (·.2) ++ (server.step op).passed ops

def decideCollisionFree :
    (server : Server) → (ops : List Operation) → Decidable (server.CollisionFree ops)
  | _, [] => .isTrue trivial
  | server, op :: ops =>
    have := decideCollisionFree (server.step op) ops
    inferInstanceAs (Decidable (_ ∧ (server.step op).CollisionFree ops))

instance (server : Server) (ops : List Operation) : Decidable (server.CollisionFree ops) :=
  decideCollisionFree server ops

end Server
end ReadingBench.Store
