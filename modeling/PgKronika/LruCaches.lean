import PgKronika.ByteCodec
import PgKronika.CheckedArith

/-! The response cache and the decoded-fact cache: hash tables with stamps, which insert first and
then evict from the oldest end. The cost of the table itself is a parameter. -/
namespace PgKronika
namespace LruCaches

open ByteCodec CheckedArith

/-- `keyCapacity` is the allocation of the stored key's strings. -/
structure Entry (V : Type) where
  value : V
  keyCapacity : ℕ
  lastUsed : UInt64
  deriving DecidableEq

/-- A hash table in some order. -/
abbrev Table (K V : Type) := List (K × Entry V)

structure CacheInner (K V : Type) where
  entries : Table K V := []
  clock : UInt64 := 0
  bytes : ℕ := 0

structure Limits where
  maxBytes : ℕ
  maxEntries : ℕ

section Tables

variable {K V : Type} [DecidableEq K]

def lookup (table : Table K V) (key : K) : Option (Entry V) :=
  (table.find? fun e => decide (e.1 = key)).map Prod.snd

/-- An insertion under a key that is there keeps the stored key. -/
def insertEntry (table : Table K V) (key : K) (entry : Entry V) : Table K V :=
  let stored := { entry with
    keyCapacity := (lookup table key).elim entry.keyCapacity (·.keyCapacity) }
  (key,stored)::table.filter fun e => decide (e.1 ≠ key)

def evictLru (table : Table K V) : Table K V :=
  match (table.map fun e => e.2.lastUsed).min? with
  | none => table
  | some oldest => table.eraseP fun e => e.2.lastUsed == oldest

/-- Each turn takes one entry out. -/
def evictEntries (maxEntries : ℕ) : ℕ → Table K V → Table K V
  | 0,table => table
  | fuel+1,table =>
    if maxEntries < table.length then evictEntries maxEntries fuel (evictLru table) else table

def evictBytes (charge : Table K V → ℕ) (maxBytes : ℕ) : ℕ → Table K V → Table K V
  | 0,table => table
  | fuel+1,table =>
    if maxBytes < charge table ∧ table ≠ [] then evictBytes charge maxBytes fuel (evictLru table)
    else table

/-- Both caches look up alike: a hit is a use, a miss only moves the clock. -/
def CacheInner.get (inner : CacheInner K V) (key : K) : Option V × CacheInner K V :=
  let now := inner.clock+1
  match lookup inner.entries key with
  | none => (none,{ inner with clock := now })
  | some entry => (some entry.value,{ inner with
      clock := now
      entries := inner.entries.map fun e =>
        if e.1 = key then (e.1,{ e.2 with lastUsed := now }) else e })

end Tables

namespace ResponseCache

variable {K : Type} [DecidableEq K]

def stringAllocationCharge (capacity : ℕ) : ℕ :=
  if capacity = 0 then 0 else saturatingAdd capacity 32

def arcBodyAllocationCharge (bodyLen : ℕ) : ℕ := saturatingAdd (saturatingAdd bodyLen 16) 32

/-- A cached key has no page, so of its strings only the filters are charged. -/
def logicalResidentCharge (tableCost : ℕ → ℕ) (entries : Table K Bytes) : ℕ :=
  if entries.isEmpty then 0
  else entries.foldl (fun total e =>
    saturatingAdd (saturatingAdd total (stringAllocationCharge e.2.keyCapacity))
      (arcBodyAllocationCharge e.2.value.length)) (tableCost entries.length)

def insert (limits : Limits) (tableCost : ℕ → ℕ) (inner : CacheInner K Bytes) (key : K)
    (keyCapacity : ℕ) (body : Bytes) : CacheInner K Bytes :=
  if limits.maxEntries = 0 then inner
  else
    let now := inner.clock+1
    let inserted := insertEntry inner.entries key ⟨body,keyCapacity,now⟩
    let counted := evictEntries limits.maxEntries inserted.length inserted
    let charge := logicalResidentCharge tableCost
    let entries := evictBytes charge limits.maxBytes counted.length counted
    ⟨entries,now,charge entries⟩

end ResponseCache

namespace DecodedFactCache

variable {K F : Type} [DecidableEq K]

def logicalResidentCharge (tableCost : ℕ → ℕ) (residentBytes : F → Option ℕ)
    (entries : Table K F) : Option ℕ :=
  if entries.isEmpty then some 0
  else do
    let table ← checkedAdd 0 (tableCost entries.length)
    entries.foldlM (fun total e => do
      let bytes ← residentBytes e.2.value
      let total ← checkedAdd total bytes
      checkedAdd total 48) table

/-- The charge as recorded: an overflow counts as the largest one. -/
def recordedCharge (tableCost : ℕ → ℕ) (residentBytes : F → Option ℕ) (entries : Table K F) : ℕ :=
  (logicalResidentCharge tableCost residentBytes entries).getD u64Max

def insert (limits : Limits) (tableCost : ℕ → ℕ) (residentBytes : F → Option ℕ)
    (inner : CacheInner K F) (key : K) (facts : F) : CacheInner K F :=
  if limits.maxBytes = 0 ∨ limits.maxEntries = 0 ∨ residentBytes facts = none then inner
  else
    let now := inner.clock+1
    let inserted := insertEntry inner.entries key ⟨facts,0,now⟩
    let counted := evictEntries limits.maxEntries inserted.length inserted
    let charge := recordedCharge tableCost residentBytes
    let entries := evictBytes charge limits.maxBytes counted.length counted
    ⟨entries,now,charge entries⟩

end DecodedFactCache

end LruCaches
end PgKronika
