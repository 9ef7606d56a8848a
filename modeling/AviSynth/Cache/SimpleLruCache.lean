import Mathlib.Algebra.GroupWithZero.Nat
import Mathlib.Data.List.Nodup
import Mathlib.Algebra.Ring.Int.Defs
import Mathlib.Order.Basic

/-!
# The list behind every cache

`SimpleLruCache` keeps its entries in one list, most recently used first, and
the nodes of removed entries in a pool. The evict event is a callback of the
owner, so every operation that can evict threads the owner's state.
-/

namespace AviSynth

/-- The largest value of `size_t`, the initial upper capacity limit. -/
def sizeMax : ℕ := 2 ^ 64 - 1

/-- `clamp` of `avs/minmax.h`: the lower bound wins when the bounds cross. -/
def clamp (n lo hi : ℕ) : ℕ :=
  let m := if n > hi then hi else n
  if m < lo then lo else m

/-- A list node: `SimpleLruCache::Entry`. -/
structure Entry (K V : Type) where
  key : K
  value : V
  deriving DecidableEq

/-- The fields of `SimpleLruCache`; the callback and its user data are
arguments of the operations that call it. -/
structure SimpleLruCache (K V : Type) where
  minCapacity : ℕ
  maxCapacity : ℕ
  requestedCapacity : ℕ
  realCapacity : ℕ
  /-- Entries in use, most recently used first. -/
  cache : List (Entry K V)
  /-- Nodes of removed entries, kept for reuse with their stale contents. -/
  pool : List (Entry K V)
  deriving DecidableEq

/-- What `SimpleLruCache::lookup` hands back: a pointer to the value of a found
entry, a pointer to the value of the node it has just put in front (which still
holds whatever the node held), or `NULL` when nothing can be stored. -/
inductive Storage (V : Type) where
  | found (value : V)
  | fresh (stale : V)
  | null
  deriving DecidableEq

namespace SimpleLruCache

variable {K V σ : Type}

/-- The constructor: empty, with the whole `size_t` range as limits. -/
def new (capacity : ℕ) : SimpleLruCache K V :=
  ⟨0, sizeMax, capacity, capacity, [], []⟩

/-- `SimpleLruCache::size`. -/
def size (c : SimpleLruCache K V) : ℕ := c.cache.length

/-- The loop of `trim` over the entries it visits, starting from the back: an
entry the callback gives up moves to the front of the pool, the others stay. -/
def evictBack (evict : Entry K V → σ → Bool × σ) :
    List (Entry K V) → List (Entry K V) → σ → List (Entry K V) × List (Entry K V) × σ
  | [], pool, s => ([], pool, s)
  | e :: es, pool, s =>
    let (kept, pool, s) := evictBack evict es pool s
    let (gone, s) := evict e s
    if gone then (kept, e :: pool, s) else (e :: kept, pool, s)

/-- `SimpleLruCache::trim`: visit as many entries from the back as there are
above the capacity. The first `realCapacity` entries are never visited. -/
def trim (evict : Entry K V → σ → Bool × σ) (c : SimpleLruCache K V) (s : σ) :
    SimpleLruCache K V × σ :=
  if c.size > c.realCapacity then
    let (kept, pool, s) := evictBack evict (c.cache.drop c.realCapacity) c.pool s
    ({ c with cache := c.cache.take c.realCapacity ++ kept, pool := pool }, s)
  else (c, s)

/-- `SimpleLruCache::resize`. -/
def resize (evict : Entry K V → σ → Bool × σ) (c : SimpleLruCache K V) (newCap : ℕ) (s : σ) :
    SimpleLruCache K V × σ :=
  trim evict { c with
    requestedCapacity := newCap
    realCapacity := clamp newCap c.minCapacity c.maxCapacity } s

/-- `SimpleLruCache::set_limits`. -/
def setLimits (evict : Entry K V → σ → Bool × σ) (c : SimpleLruCache K V) (min max : ℕ) (s : σ) :
    SimpleLruCache K V × σ :=
  resize evict { c with minCapacity := min, maxCapacity := max } c.requestedCapacity s

variable [DecidableEq K]

/-- `SimpleLruCache::lookup`. A found entry moves to the front. Otherwise the
list is trimmed and a node is put in front, from the pool if there is one; a
new node holds `blank` until its owner writes to it. -/
def lookup (evict : Entry K V → σ → Bool × σ) (blank : V) (c : SimpleLruCache K V) (key : K)
    (lookuponly : Bool) (s : σ) : Storage V × SimpleLruCache K V × σ :=
  match c.cache.find? (fun e => e.key = key) with
  | some e => (.found e.value, { c with cache := e :: c.cache.eraseP (fun e => e.key = key) }, s)
  | none =>
    if lookuponly then (.null, c, s)
    else
      let (c, s) := trim evict c s
      if c.realCapacity ≠ 0 then
        match c.pool with
        | node :: pool =>
          (.fresh node.value, { c with cache := ⟨key, node.value⟩ :: c.cache, pool := pool }, s)
        | [] => (.fresh blank, { c with cache := ⟨key, blank⟩ :: c.cache }, s)
      else (.null, c, s)

/-- A write through the pointer handed out by `lookup`, which points into the
front node. -/
def setFront (c : SimpleLruCache K V) (value : V) : SimpleLruCache K V :=
  match c.cache with
  | [] => c
  | e :: es => { c with cache := ⟨e.key, value⟩ :: es }

/-- `SimpleLruCache::remove`: the node moves to the pool; no evict event. -/
def remove (c : SimpleLruCache K V) (key : K) : SimpleLruCache K V :=
  match c.cache.find? (fun e => e.key = key) with
  | some e => { c with cache := c.cache.eraseP (fun e => e.key = key), pool := e :: c.pool }
  | none => c

end SimpleLruCache

end AviSynth
