/-!
# Linkage.Sorting — sorting by merging runs

A list is cut into runs that rise already, or that fall and are turned round; short runs are filled up by binary
insertion, and neighbouring runs are merged as in a balanced tree.  Elements that are equally large keep their order.
A comparison may also be no order at all, as with numbers that compare with nothing: the answer then depends on which
elements are compared, and this module says which.  It is a permutation all the same (`sort_perm`).  A comparison may
refuse, and then so does the sort.
-/

namespace Linkage.Sorting

variable {β : Type}

/-! ### Searching -/

/-- Whether the element at an index passes. -/
def passes (test : β → Option Bool) (xs : Array β) (i : Nat) : Option Bool :=
  match xs[i]? with
  | some b => test b
  | none => some false

/-- Where elements cease to pass, between two positions, found by halving. -/
def bisect (test : β → Option Bool) (xs : Array β) (low high : Nat) : Option Nat :=
  if low < high then do
    let middle := low + (high - low) / 2
    if ← passes test xs middle then bisect test xs (middle + 1) high else bisect test xs low middle
  else some low
termination_by high - low

/-- The last distance that holds and the next one that does not or reaches the limit; each is twice the one before and
one more. -/
def leap (holds : Nat → Option Bool) (limit last next : Nat) : Option (Nat × Nat) :=
  if next < limit then do
    if ← holds next then leap holds limit next (2 * next + 1) else some (last, next)
  else some (last, limit)
termination_by limit - next

/-- Where elements cease to pass, searched in leaps from a position and then by halving. -/
def gallop (test : β → Option Bool) (xs : Array β) (start : Nat) : Option Nat := do
  if ← passes test xs start then
    let (last, next) ← leap (fun d => passes test xs (start + d)) (xs.size - start) 0 1
    bisect test xs (start + last + 1) (start + next)
  else
    let (last, next) ← leap (fun d => (!·) <$> passes test xs (start - d)) (start + 1) 0 1
    bisect test xs (start + 1 - next) (start - last)

/-! ### Runs -/

section Runs

variable (less : β → β → Option Bool)

/-- How many elements go on as the run does that ends with `b`: falling, or else never falling. -/
def runLength (falling : Bool) (b : β) : List β → Option Nat
  | [] => some 0
  | c :: rest => do
    if (← less c b) == falling then return (← runLength falling c rest) + 1 else return 0

/-- Puts elements one after the other where halving finds their place, behind those they are not less than. -/
def insertAll (sorted : List β) : List β → Option (List β)
  | [] => some sorted
  | b :: rest => do
    let place ← bisect (fun c => (!·) <$> less b c) sorted.toArray 0 sorted.length
    insertAll (sorted.take place ++ b :: sorted.drop place) rest

/-- Whether the run that begins with `b` falls, and how many elements belong to it besides. -/
def firstRun (b : β) : List β → Option (Bool × Nat)
  | [] => some (false, 0)
  | c :: rest => do
    let falling ← less c b
    return (falling, (← runLength less falling c rest) + 1)

/-- The run at the head of a list, filled up to a least length, and the rest. -/
def nextRun (least : Nat) (b : β) (rest : List β) : Option (List β × List β) := do
  let (falling, count) ← firstRun less b rest
  let run := b :: rest.take count
  let run := if falling then run.reverse else run
  let more := rest.drop count
  let missing := least - run.length
  return (← insertAll less run (more.take missing), more.drop missing)

end Runs

/-! ### Merging two runs -/

/-- A merge under way.  Both runs are listed from the side it starts at: the one that `moved` grows next to, and the
elements left of both. -/
structure Merge (β : Type) where
  moved : List β
  /-- The shorter run; its last element goes behind all of the other. -/
  short : List β
  long : List β
  /-- How many elements in a row one run has to yield before whole blocks are searched for. -/
  patience : Nat

namespace Merge

def isDone (m : Merge β) : Bool := m.long.isEmpty || m.short.length ≤ 1

/-- What the merge leaves. -/
def result (m : Merge β) : List β := m.moved ++ (m.long ++ m.short)

/-- How many elements at the head of a run pass, searched from there; `fromEnd` says that the run is listed
backwards. -/
def leading (fromEnd : Bool) (test : β → Option Bool) (xs : List β) : Option Nat := do
  if fromEnd then
    let n ← gallop (fun b => (!·) <$> test b) xs.reverse.toArray (xs.length - 1)
    return xs.length - n
  else gallop test xs.toArray 0

/-- Moves the first element of the shorter run. -/
def moveShort (m : Merge β) : Merge β :=
  match m.short with
  | [] => m
  | b :: rest => { m with moved := m.moved ++ [b], short := rest }

/-- Moves the first element of the longer run. -/
def moveLong (m : Merge β) : Merge β :=
  match m.long with
  | [] => m
  | b :: rest => { m with moved := m.moved ++ [b], long := rest }

variable (ahead : β → β → Option Bool) (fromEnd : Bool)

/-- Moves the block of the shorter run that the next element of the longer one does not go ahead of, and then that
element; the answer has the length of the block. -/
def shortBlock (m : Merge β) : Option (Merge β × Nat) :=
  match m.long with
  | [] => some (m, 0)
  | b :: _ => do
    let count ← leading fromEnd (fun c => (!·) <$> ahead b c) m.short
    let m := { m with moved := m.moved ++ m.short.take count, short := m.short.drop count }
    return (if m.isDone then m else m.moveLong, count)

/-- Moves the block of the longer run that goes ahead of the next element of the shorter one, and then that element. -/
def longBlock (m : Merge β) : Option (Merge β × Nat) :=
  match m.short with
  | [] => some (m, 0)
  | b :: _ => do
    let count ← leading fromEnd (fun c => ahead c b) m.long
    let m := { m with moved := m.moved ++ m.long.take count, long := m.long.drop count }
    return (if m.isDone then m else m.moveShort, count)

/-- How an element is found: one by one, with the lengths of the latest streaks of both runs, or by blocks. -/
inductive Mode where
  | single (short long : Nat)
  | blocks

/-- Blocks at least this long keep the merge searching for blocks. -/
def goodBlock : Nat := 7

/-- Moves the next element, and one of the other run that goes ahead of it. -/
def single (m : Merge β) (short long : Nat) : Option (Merge β × Mode) :=
  match m.short, m.long with
  | b :: _, c :: _ => do
    let first ← ahead c b
    let (m, short, long) := if first then (m.moveLong, 0, long + 1) else (m.moveShort, short + 1, 0)
    return (m, if m.patience ≤ max short long then .blocks else .single short long)
  | _, _ => some (m, .single short long)

/-- Moves a block of one of the runs. -/
def oneBlock (ofLong : Bool) (m : Merge β) : Option (Merge β × Nat) :=
  if ofLong then longBlock ahead fromEnd m else shortBlock ahead fromEnd m

/-- Moves a block of each run, first of the one that stood first.  As long as blocks are good the merge gets less
patient, and else more. -/
def block (m : Merge β) : Option (Merge β × Mode) := do
  let (m, p) ← oneBlock ahead fromEnd fromEnd m
  if m.isDone then return (m, .blocks)
  let (m, q) ← oneBlock ahead fromEnd (!fromEnd) m
  if m.isDone then return (m, .blocks)
  if goodBlock ≤ p || goodBlock ≤ q then return ({ m with patience := max 1 (m.patience - 1) }, .blocks)
  else return ({ m with patience := m.patience + 1 }, .single 0 0)

/-- One round of a merge. -/
def round (m : Merge β) : Mode → Option (Merge β × Mode)
  | .single short long => single ahead m short long
  | .blocks => block ahead fromEnd m

/-- Goes on until the merge is done; each round moves an element, so as many rounds as elements are enough. -/
def run : (rounds : Nat) → Merge β → Mode → Option (Merge β)
  | 0, m, _ => some m
  | rounds + 1, m, mode =>
    if m.isDone then some m
    else do
      let (m, mode) ← round ahead fromEnd m mode
      run rounds m mode

end Merge

/-- Merges two runs of which each begins and ends inside the other. -/
def mergeOverlap (less : β → β → Option Bool) (patience : Nat) (a b : List β) : Option (List β × Nat) := do
  if a.length ≤ b.length then
    let m := Merge.moveLong ⟨[], a, b, patience⟩
    let m ← m.run less false (a.length + b.length) (.single 0 0)
    return (m.result, m.patience)
  else
    let m := Merge.moveLong ⟨[], b.reverse, a.reverse, patience⟩
    let m ← m.run (fun x y => less y x) true (a.length + b.length) (.single 0 0)
    return (m.result.reverse, m.patience)

/-- Merges two neighbouring runs: the beginning of the first and the end of the second that are in place already stay
there. -/
def merge (less : β → β → Option Bool) (patience : Nat) (a b : List β) : Option (List β × Nat) :=
  match b with
  | [] => some (a, patience)
  | head :: _ => do
    let i ← gallop (fun c => (!·) <$> less head c) a.toArray 0
    match (a.drop i).getLast? with
    | none => return (a ++ b, patience)
    | some last =>
      let j ← gallop (fun c => less c last) b.toArray (b.length - 1)
      if j = 0 then return (a ++ b, patience)
      let (middle, patience) ← mergeOverlap less patience (a.drop i) (b.take j)
      return (a.take i ++ middle ++ b.drop j, patience)

/-! ### Merging all runs -/

/-- A run that waits to be merged. -/
structure Run (β : Type) where
  start : Nat
  items : List β
  /-- Depth of the border to the next run in the tree of merges. -/
  depth : Nat

/-- The first binary place at which the middles of two runs differ, as fractions of the whole; `low` and `high` are
twice these middles. -/
def borderDepth (total : Nat) : (places low high : Nat) → Nat
  | 0, _, _ => 1
  | places + 1, low, high =>
    if total ≤ low then borderDepth total places (2 * (low - total)) (2 * (high - total)) + 1
    else if total ≤ high then 1
    else borderDepth total places (2 * low) (2 * high) + 1

/-- Runs that wait, the latest first, with the patience of the next merge. -/
structure Waiting (β : Type) where
  runs : List (Run β)
  patience : Nat

namespace Waiting

variable (less : β → β → Option Bool)

/-- Merges the latest runs as long as the border before them is deeper than a new one. -/
def settle (depth : Nat) (runs : List (Run β)) (patience : Nat) : Option (Waiting β) :=
  match runs with
  | b :: a :: rest =>
    if depth < a.depth then do
      let (items, patience) ← merge less patience a.items b.items
      settle depth ({ a with items := items } :: rest) patience
    else some ⟨runs, patience⟩
  | _ => some ⟨runs, patience⟩
termination_by runs.length

/-- Adds a run behind the others, of `total` elements in all. -/
def add (total : Nat) (w : Waiting β) (items : List β) : Option (Waiting β) :=
  match w.runs with
  | [] => some { w with runs := [⟨0, items, 0⟩] }
  | last :: _ => do
    let n := last.items.length
    let middle := 2 * last.start + n
    let depth := borderDepth total (total + 1) middle (middle + n + items.length)
    let w ← settle less depth w.runs w.patience
    let runs := match w.runs with
      | latest :: rest => { latest with depth := depth } :: rest
      | [] => []
    return { w with runs := ⟨last.start + n, items, 0⟩ :: runs }

/-- Merges all runs that wait: always two neighbours at the end, and of three the shorter outer one first. -/
def mergeAll (runs : List (Run β)) (patience : Nat) : Option (List β) :=
  match runs with
  | [] => some []
  | [only] => some only.items
  | [b, a] => do
    let (items, _) ← merge less patience a.items b.items
    return items
  | c :: b :: a :: rest => do
    if a.items.length < c.items.length then
      let (items, patience) ← merge less patience a.items b.items
      mergeAll (c :: { a with items := items } :: rest) patience
    else
      let (items, patience) ← merge less patience b.items c.items
      mergeAll ({ b with items := items } :: a :: rest) patience
termination_by runs.length

/-- Cuts a list into runs of a least length, adds them one after the other, and merges what is left. -/
def addAll (total least : Nat) (xs : List β) (w : Waiting β) : (fuel : Nat) → Option (List β)
  | 0 => return (← mergeAll less w.runs w.patience) ++ xs
  | fuel + 1 =>
    match xs with
    | [] => mergeAll less w.runs w.patience
    | b :: rest => do
      let (run, rest) ← nextRun less least b rest
      addAll total least rest (← add less total w run) fuel

end Waiting

/-- The least length of a run: the list's own below sixty-four, and else its first six binary digits, one more if any
digit behind them is not zero. -/
def leastRun (n : Nat) : Nat :=
  let unit := Nat.pow 2 (n.log2 - 5)
  if n < 64 then n else n / unit + (if n % unit = 0 then 0 else 1)

/-- The elements in rising order; nothing if the comparison refuses. -/
def sort (less : β → β → Option Bool) (xs : List β) : Option (List β) :=
  Waiting.addAll less xs.length (leastRun xs.length) xs ⟨[], Merge.goodBlock⟩ xs.length

end Linkage.Sorting
