import GaussdbGo.Lib.Go
import GaussdbGo.Lib.Machine
import GaussdbGo.Lib.Indexed

/-!
# internal/stmtcache — `LRUCache`

The statement cache of a connection: a map from SQL text to list elements,
a `container/list` in recency order (front: most recently used), and the
descriptions invalidated since the last `RemoveInvalidated`, which the
connection deallocates on the server.

The cache reads nothing of a `*StatementDescription` but its `SQL`, so it is
generic here over the values `α` it keeps and the key `sql` of a value. A
list element is its value: `MoveToFront(el)` and `Remove(el)` act on the
element the map holds for a key, which is the one list entry with that value
as long as no value is listed twice (`Inv.nodup`). The map is a function from
keys, `make(map…)` the empty one. `cap` is an `int` the code only compares
with `Len()`; the cache is only made with a capacity above zero.

`step` runs one call as a transition; the values `Get` and `GetInvalidated`
return are what `get` and `getInvalidated` compute.
-/

namespace GaussdbGo.Stmtcache

open GoStd Indexed

variable {α : Type} [DecidableEq α] (sql : α → String)

/-- An `LRUCache` of values `α`. -/
structure LRUCache (α : Type) where
  cap : Nat
  m : String → Option α
  l : List α
  invalidStmts : List α

/-- `NewLRUCache(cap)`. -/
def newLRUCache (cap : Nat) : LRUCache α := { cap := cap, m := fun _ => none, l := [], invalidStmts := [] }

namespace LRUCache

/-- `Get(key)`: a hit moves the element to the front. -/
def get (c : LRUCache α) (key : String) : Option α × LRUCache α :=
  match c.m key with
  | some sd => (some sd, { c with l := sd :: c.l.erase sd })
  | none => (none, c)

/-- `invalidateOldest`: the back element is invalidated; on an empty list
`Back()` is `nil` and reading its `Value` panics. -/
def invalidateOldest (c : LRUCache α) : Go Empty (LRUCache α) :=
  match c.l.getLast? with
  | none => crash .nilDereference
  | some sd =>
    pure { c with
      invalidStmts := c.invalidStmts ++ [sd], m := update c.m (sql sd) none, l := c.l.dropLast }

/-- `Put(sd)`: nothing for a key already cached or invalidated and not yet
removed; a full cache first invalidates its oldest entry. -/
def put (c : LRUCache α) (sd : α) : Go Empty (LRUCache α) :=
  if sql sd = "" then crash (.explicit "cannot store statement description with empty SQL")
  else if (c.m (sql sd)).isSome then pure c
  else if c.invalidStmts.any (fun invalidSD => sql invalidSD = sql sd) then pure c
  else do
    let c ← if c.l.length = c.cap then invalidateOldest sql c else pure c
    pure { c with l := sd :: c.l, m := update c.m (sql sd) (some sd) }

/-- `Invalidate(sql)`. -/
def invalidate (c : LRUCache α) (key : String) : LRUCache α :=
  match c.m key with
  | some sd =>
    { c with m := update c.m key none, invalidStmts := c.invalidStmts ++ [sd], l := c.l.erase sd }
  | none => c

/-- `InvalidateAll()`: the list, front to back, joins the invalidated. -/
def invalidateAll (c : LRUCache α) : LRUCache α :=
  { c with invalidStmts := c.invalidStmts ++ c.l, m := fun _ => none, l := [] }

/-- `GetInvalidated()`. -/
def getInvalidated (c : LRUCache α) : List α := c.invalidStmts

/-- `RemoveInvalidated()`. -/
def removeInvalidated (c : LRUCache α) : LRUCache α := { c with invalidStmts := [] }

/-- `Len()`. -/
def len (c : LRUCache α) : Nat := c.l.length

end LRUCache

/-- The calls that change or read the cache. -/
inductive Op (α : Type) where
  | get (key : String)
  | put (sd : α)
  | invalidate (key : String)
  | invalidateAll
  | getInvalidated
  | removeInvalidated

/-- One call, as a transition of the cache. -/
def step (c : LRUCache α) : Op α → Go Empty (LRUCache α)
  | .get key => pure (c.get key).2
  | .put sd => c.put sql sd
  | .invalidate key => pure (c.invalidate key)
  | .invalidateAll => pure c.invalidateAll
  | .getInvalidated => pure c
  | .removeInvalidated => pure c.removeInvalidated

end GaussdbGo.Stmtcache
