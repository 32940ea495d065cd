import RecordQuery.Sql.Access.Path
/-!
# The choice of a path

`Question.paths` lists the paths that come into question for a statement, and `Question.choose` is the one
with the least cost. Where rows are to be sorted the cost of sorting counts, unless a path meets them in
order already; such a path may be walked backwards.
-/

namespace RecordQuery.Sql.Access

/-- A term that rows are sorted by: a column, if it is one of the table. -/
structure Term where
  column? : Option Handle.Column
  isDescending : Bool

/-- What a statement asks of a table. -/
structure Question where
  /-- The hints of the parts of the condition. -/
  clause : List Hint
  /-- The columns that each part names. -/
  named : List (List Handle)
  /-- The fields that the statement reads. -/
  asked : List Handle
  order : List Term := []
  /-- The number of rows at most. -/
  limit : Option Estimate := none
  /-- The number of columns of the result. -/
  width : Nat := 1

/-! ## The list of paths -/

/-- Whether all that a path makes use of another one makes use of too, and more, while it does not cost
more. -/
def Path.isWithin (p q : Path) : Bool :=
  p.uses.length < q.uses.length && (p.cost ≤ q.cost || p.rows ≤ q.rows) &&
    p.uses.all (fun use => q.uses.any fun other => other.number = use.number) &&
    (!p.isCovered || q.isCovered)

/-- Whether a path goes through an index. -/
def Path.isIndexed (p : Path) : Bool :=
  match p.way with
  | .index _ => true
  | _ => false

/-- A path with its cost corrected: one that makes use of more is not costlier. -/
def Path.corrected (paths : List Path) (p : Path) : Path :=
  if !p.isIndexed then p
  else
    (paths.filter Path.isIndexed).foldl
      (fun p q =>
        if q.isWithin p then { p with cost := min q.cost p.cost, rows := min (q.rows - 1) p.rows }
        else if p.isWithin q then { p with cost := max q.cost p.cost, rows := max (q.rows + 1) p.rows }
        else p)
      p

/-- Whether a path is no worse than another. -/
def Path.isAtLeast (p q : Path) : Bool := p.cost ≤ q.cost && p.rows ≤ q.rows

/-- Takes the paths out that a path supplants, up to one that is as good. -/
def prune (p : Path) : List Path → List Path
  | [] => []
  | q :: paths =>
    if q.slot != p.slot then q :: prune p paths
    else if q.isAtLeast p then q :: paths
    else if p.isAtLeast q then prune p paths
    else q :: prune p paths

/-- Puts a path in the place of the first one that it supplants, or behind them all, unless one is as good. -/
def insert (p : Path) : List Path → List Path
  | [] => [p]
  | q :: paths =>
    if q.slot != p.slot then q :: insert p paths
    else if q.isAtLeast p then q :: paths
    else if p.isAtLeast q then p :: prune p paths
    else q :: insert p paths

/-- Lists one more path. -/
def list (paths : List Path) (p : Path) : List Path := insert (p.corrected paths) paths

/-! ## The paths of a question -/

/-- Whether a target may meet the rows in order. -/
def mayOrder (columns : List Handle.Column) (order : List Term) : Bool :=
  order.any fun term =>
    match term.column? with
    | some column => column.handle = .key || columns.any (·.handle = column.handle)
    | none => false

/-- The look-ups of rows that a walk through an index takes. A part that the index knows spares some,
until one comes that it does not. -/
def lookups (index : Index) : List (List Handle × Bool) → Estimate → Estimate
  | [], n => n
  | (handles, isEqual) :: parts, n =>
    if handles.all index.knows then lookups index parts (if isEqual then n - 20 else n - 1) else n

/-- The walk through all of an index, if it is worth it. -/
def walk? (q : Question) (shape : Shape) (index : Index) (target : Target) : Option Path :=
  let isEqual : Hint → Bool
    | .restricts _ .equal => true
    | _ => false
  let parts := q.clause.zip q.named
  let own := parts.map fun (hint, handles) => (handles, isEqual hint)
  let more := parts.reverse.flatMap fun (hint, handles) => (implied hint).map fun _ => (handles, false)
  let cost := allRows + target.step
  if target.slot != 0 || (target.isCovered && index.width < shape.width) then
    some
      { way := target.way
        cost := if target.isCovered then cost
          else Estimate.plus cost (lookups index (own ++ more) (allRows + threefold))
        rows := remaining q.clause [] allRows
        slot := target.slot
        isCovered := target.isCovered }
  else none

/-- The targets of a question with their indexes, if they are ones. -/
def Question.targets (q : Question) (shape : Shape) : List (Option Index × Target) :=
  let slot (columns : List Handle.Column) (n : Nat) : Nat := if mayOrder columns q.order then n else 0
  (none, keyTarget (slot [] 1)) ::
    shape.indexes.zipIdx.map fun (index, n) =>
      (some index, index.target shape q.asked n (slot index.columns (n + 2)))

/-- The paths that seek rows. -/
def Question.seeks (q : Question) (shape : Shape) (clause : List Hint) (around : List (List Hint)) :
    List Path :=
  (q.targets shape).flatMap fun (_, target) => target.paths clause (usesOf clause around)

/-- All paths that come into question. -/
def Question.paths (q : Question) (shape : Shape) : List Path :=
  let uses := usesOf q.clause []
  let direct := (q.targets shape).flatMap fun (index?, target) =>
    (match index? with
      | some index => (walk? q shape index target).toList
      | none =>
        [{ way := .keys
           cost := allRows + threefold
           rows := remaining q.clause [] allRows
           slot := target.slot }]) ++
    target.paths q.clause uses
  let unions := (unions (q.seeks shape) [] q.clause).zipIdx.filterMap fun (best, n) =>
    best.map fun (cost, rows) => ({ way := .union n, cost, rows, uses := [] } : Path)
  (direct ++ unions).foldl list []

/-! ## Order -/

/-- How far rows are in order along the columns of a path. -/
structure Progress where
  done : List Nat
  backwards : Option Bool := none
  isDistinct : Bool := true
  meetsKey : Bool := false

/-- The first term that rows are not yet in the order of. -/
def Progress.next? (p : Progress) (order : List Term) : Option (Nat × Term) :=
  (order.zipIdx.find? fun (_, n) => !p.done.contains n).map fun (term, n) => (n, term)

/-- Whether a term sorts by a column, in the direction in which the path is walked. -/
def Term.isAlong (term : Term) (column : Handle.Column) (backwards : Option Bool) : Bool :=
  (term.column?.any fun c =>
    c.handle = column.handle && (c.handle = .key || c.collation = column.collation)) &&
    backwards.all (· == term.isDescending)

/-- Goes along the columns of a path; `size` is the number of those that identify a row, and `reached`
counts the columns that were passed. -/
def Progress.along (order : List Term) (size : Nat) :
    Nat → List Restriction → List Handle.Column → Progress → Progress
  | _, _, [], p => p
  | reached, fixed, column :: columns, p =>
    let isFree := fixed.isEmpty
    match fixed.head? with
    | some .equal => Progress.along order size (reached + 1) fixed.tail columns p
    | some .empty =>
      Progress.along order size (reached + 1) fixed.tail columns { p with isDistinct := false }
    | _ =>
      let p := if isFree && !column.isFilled then { p with isDistinct := false } else p
      let failed := if reached = 0 || reached < size then { p with isDistinct := false } else p
      match p.next? order with
      | none => failed
      | some (n, term) =>
        if term.isAlong column p.backwards then
          Progress.along order size (reached + 1) fixed.tail columns
            { p with
              done := n :: p.done
              backwards := some term.isDescending
              meetsKey := p.meetsKey || column.handle = .key }
        else failed

/-- The number of leading terms in whose order a path meets the rows, and whether it is walked backwards. -/
def Question.ordered (q : Question) (shape : Shape) (path : Path) : Nat × Bool :=
  let count := q.order.length
  let isFixed (term : Term) : Bool := q.clause.any fun hint =>
    match hint with
    | .restricts column restriction =>
      (restriction = .equal || restriction = .empty) &&
        term.column?.any fun c => c.handle = column.handle
    | _ => false
  let done := (q.order.zipIdx.filter fun (term, _) => isFixed term).map Prod.snd
  let leading (p : Progress) : Nat × Bool :=
    let p := if p.meetsKey then { p with isDistinct := true } else p
    let backwards := p.backwards.getD false
    if p.isDistinct then (count, backwards)
    else (((List.range count).takeWhile p.done.contains).length, backwards)
  if path.isSingle then (count, false)
  else
    match path.way with
    | .union _ => (0, false)
    | .keys => leading (Progress.along q.order 0 0 path.fixed [keyColumn] { done })
    | .index n =>
      match shape.indexes[n]? with
      | some index =>
        leading (Progress.along q.order index.columns.length 0 path.fixed
          (index.columns ++ [keyColumn]) { done })
      | none => (0, false)

/-- The cost of sorting rows of which some terms are in order already. -/
def Question.sortCost (q : Question) (rows : Estimate) (inOrder : Nat) : Estimate :=
  let count := q.order.length
  let width := Estimate.ofNat ((q.width + 59) / 30)
  let partly :=
    if inOrder = 0 then 0 else Estimate.ofNat ((count - inOrder) * 100 / count) - 66
  match q.limit with
  | none => rows + width + partly + Estimate.log rows
  | some limit =>
    rows + width + partly + 10 + (if inOrder = 0 then 0 else 6) + Estimate.log (min limit rows)

/-! ## The choice -/

/-- Whether a path makes use of a restriction that names values. -/
def Path.isPinned (p : Path) : Bool := !p.fixed.isEmpty

/-- Whether a path makes use of any restriction. -/
def Path.isRestricted (p : Path) : Bool := !p.uses.isEmpty

/-- The first of candidates that is cheapest by cost, by rows and by cost without sorting. -/
def cheapest? {α : Type} : List (α × Estimate × Estimate × Estimate) → Option α
  | [] => none
  | candidate :: candidates =>
    some (candidates.foldl
      (fun best (next : α × Estimate × Estimate × Estimate) =>
        let (_, cost, rows, plain) := best
        let (_, cost', rows', plain') := next
        if cost < cost' || (cost = cost' && (rows < rows' || (rows = rows' && plain ≤ plain'))) then best
        else next)
      candidate).1

/-- The path of least cost if rows need no order. -/
def Question.unordered? (paths : List Path) : Option Path :=
  cheapest? (paths.map fun p => (p, Estimate.plus p.cost 0, p.rows, 0))

/-- The path of least cost, and whether it is walked backwards. -/
def Question.choose (q : Question) (shape : Shape) : Way × Bool :=
  let paths := q.paths shape
  match Question.unordered? paths with
  | none => (.keys, false)
  | some first =>
    if q.order.isEmpty then (first.way, false)
    else
      let rows := if first.rows < 0 then 1 else first.rows + 1
      let paths := if first.isPinned then paths.filter Path.isRestricted else paths
      let candidates := paths.map fun p =>
        let (inOrder, backwards) := q.ordered shape p
        let plain := Estimate.plus p.cost 0
        if inOrder < q.order.length then
          ((p.way, backwards), Estimate.plus plain (q.sortCost rows inOrder) + 3, p.rows, plain)
        else ((p.way, backwards), plain, p.rows, plain - 2)
      (cheapest? candidates).getD (.keys, false)

end RecordQuery.Sql.Access
