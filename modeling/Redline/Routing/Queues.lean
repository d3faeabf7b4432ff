import Redline.Routing.Kind

/-!
# Queues of expressions

Expressions that run together are sorted into queues, which are worked off one after another. Each
keeps the order in which its expressions were given. Neighbours in the queue for cells that write
single cells of one table form one unit of work.
-/

namespace Redline

/-- An expression with its position, counted from zero. -/
structure Numbered where
  position : Nat
  expression : Expression

/-- The queues of a run of several expressions. -/
structure Queues where
  positional : List Numbered := []
  native : List Numbered := []
  /-- Expressions that run one by one on a fresh copy of the document. -/
  manual : List Numbered := []
  tableCreate : List Numbered := []
  cell : List Numbered := []
  images : List Numbered := []

namespace Queues

/-- The queues with one more expression at the end of its queue. -/
def add (q : Queues) (item : Numbered) : Kind → Queues
  | .positional => { q with positional := q.positional ++ [item] }
  | .imageInsert => { q with images := q.images ++ [item] }
  | .command | .image | .manual => { q with manual := q.manual ++ [item] }
  | .cell | .tables => { q with cell := q.cell ++ [item] }
  | .tableCreate => { q with tableCreate := q.tableCreate ++ [item] }
  | .native => { q with native := q.native ++ [item] }

/-- Sort expressions into queues. -/
def ofExpressions [CharNames] (es : List Expression) : Except Limit Queues :=
  es.zipIdx.foldlM (fun q (e, i) => return q.add ⟨i, e⟩ (← e.kindAmongOthers)) {}

/-- Two neighbours write single cells of one table. -/
def sameUnit (a b : Numbered) : Bool :=
  a.expression.replacesOneCell && b.expression.replacesOneCell &&
    (a.expression.cells?.map (·.table)) == (b.expression.cells?.map (·.table))

/-- The units of work of a queue for cells. -/
def units : List Numbered → List (List Numbered)
  | [] => []
  | item :: rest =>
    match units rest with
    | (next :: unit) :: others =>
      if sameUnit item next then (item :: next :: unit) :: others
      else [item] :: (next :: unit) :: others
    | others => [item] :: others

end Queues

end Redline
