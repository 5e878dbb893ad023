import Telephony.Lib.Memory
import Telephony.Lib.Word

/-!
# String fields

`main/stringfields.c` keeps the texts of the string fields of a structure in pools. A pool is a
block of memory that is filled from its start; the pools of a structure form a chain whose head is
the only one that is filled. In front of each text there are two bytes with the number of bytes that
its field may use. Space is claimed in four ways: by `__ast_string_field_alloc_space`, by a text
that is built in the free space of the head pool, and by the field that was allocated last, which
may grow when it is set and when it is built.

The empty text has its own constant, whose number of bytes is 0. A call comes with the `Heap` that
answers its allocations; `none` means that it gives memory back to the heap that did not come from
it. The data given to a call lies outside the pools. `vsnprintf` does not fail.
-/

namespace Telephony.StringFields

open Lib Function

/-! ## Data model -/

structure CString where
  bytes : List UInt8
  nonzero : 0 ∉ bytes
  deriving DecidableEq

def CString.length (text : CString) : ℕ := text.bytes.length

/-- Source: `__ast_string_field_empty` -/
def CString.empty : CString := ⟨[], by simp⟩

/-- A pool without its link, which is its place in a chain; `base` is the address of the storage
space. -/
structure Pool where
  base : ℕ
  size : ℕ
  used : ℕ
  active : ℕ
  deriving DecidableEq, Repr

def poolHeader : ℕ := 32

/-- Source: `__alignof__(ast_string_field_allocation)`, a `uint16_t` -/
def allocationAlign : ℕ := 2

/-- What a field points to: the constant empty text, or an address.
Source: `ast_string_field` -/
inductive FieldPtr
  | empty
  | at (a : ℕ)
  deriving DecidableEq, Repr

/-- The memory with the chain of pools, head first, and the manager; `embedded` is the `base` of the
embedded pool.
Source: `struct ast_string_field_mgr`, `__field_mgr_pool` -/
structure Arena where
  mem : Memory
  head : Pool
  prev : List Pool
  lastAlloc : Option ℕ
  embedded : Option ℕ

/-- Source: `AST_DECLARE_STRING_FIELDS` -/
structure Storage (ι : Type) where
  arena : Arena
  fields : ι → FieldPtr

/-! ## Sizes -/

def alignFor (offset align : ℕ) : ℕ := (offset + align - 1) / align * align

def makeRoomFor (offset align : ℕ) : ℕ := (offset + (2 * align - 1)) / align * align

def allocatorOverhead : ℕ := 48

/-- The loop `for (count = 1; size; size >>= 1, count++)`.
Source: `optimal_alloc_size` -/
def shiftCount (count size : ℕ) : ℕ :=
  if size = 0 then count else shiftCount (count + 1) (size / 2)
termination_by size
decreasing_by omega

/-- From 31 shifts on `1 << count` is not a positive `int`. As a `size_t` it is then in the upper
half of the range, which no heap hands out. -/
def optimalAllocSize (size : ℕ) : ℕ :=
  let count := shiftCount 1 (size + allocatorOverhead)
  if count < 31 then 2 ^ count - allocatorOverhead else 2 ^ 64 - 2 ^ 31 - allocatorOverhead

/-- The loop `while (new_size < to_alloc) new_size *= 2`, which has no end for a size of 0.
Source: `__ast_string_field_alloc_space` -/
def doubled (newSize toAlloc : ℕ) : ℕ :=
  if 0 < newSize ∧ newSize < toAlloc then doubled (newSize * 2) toAlloc else newSize
termination_by toAlloc - newSize
decreasing_by omega

def Pool.space (p : Pool) : ℕ := sizeSub p.size p.used

def Pool.Contains (p : Pool) (a : ℕ) : Prop := p.base ≤ a ∧ a ≤ p.base + p.size

instance (p : Pool) (a : ℕ) : Decidable (p.Contains a) := by
  unfold Pool.Contains
  infer_instance

/-! ## Pools -/

namespace Arena

def chain (self : Arena) : List Pool := self.head :: self.prev

def blocks (self : Arena) : List (ℕ × ℕ) :=
  self.chain.map fun p => (p.base - poolHeader, poolHeader + p.size)

def allocation (self : Arena) : FieldPtr → ℕ
  | .empty => 0
  | .at a => self.mem.load16 (a - allocationAlign)

def addStringPool (self : Arena) (heap : Heap) (size : ℕ) : Option Arena :=
  let allocSize := optimalAllocSize (poolHeader + size)
  (heap.calloc self.blocks allocSize).map fun pool =>
    { self with
      mem := self.mem.zero pool allocSize
      head := ⟨pool + poolHeader, allocSize - poolHeader, 0, 0⟩
      prev := self.chain
      lastAlloc := none }

/-- Take space from the head pool for a field of `needed` bytes, which becomes the last allocated
one. -/
def claim (self : Arena) (needed : ℕ) : Arena :=
  let result := self.head.base + self.head.used + allocationAlign
  { self with
    mem := self.mem.store16 (result - allocationAlign) needed
    head := { self.head with
      used := self.head.used + makeRoomFor needed allocationAlign
      active := self.head.active + needed }
    lastAlloc := some result }

def allocSpace (self : Arena) (heap : Heap) (needed : ℕ) : Option (Arena × ℕ) :=
  let toAlloc := makeRoomFor needed allocationAlign
  let room :=
    if self.head.space < toAlloc then self.addStringPool heap (doubled self.head.size toAlloc) else some self
  room.map fun a => (a.claim needed, a.head.base + a.head.used + allocationAlign)

/-- The last allocated field gets `grow` more bytes, for which `used` goes up by `room`. -/
def extend (self : Arena) (a grow room : ℕ) : Arena :=
  { self with
    mem := self.mem.store16 (a - allocationAlign) (self.allocation (.at a) + grow)
    head := { self.head with used := self.head.used + room, active := self.head.active + grow } }

def ptrGrow (self : Arena) (needed : ℕ) : FieldPtr → Option Arena
  | .empty => none
  | .at a =>
    let grow := needed - self.allocation (.at a)
    if self.lastAlloc ≠ some a then none
    else if self.head.space < grow then none
    else some (self.extend a grow grow)

/-- A field of `n` bytes at `a` is released in the pools behind the head. A pool without active
fields is freed, which must not be the embedded one.
Source: `__ast_string_field_release_active` (the pools with a `prev`) -/
def releaseBehind (embedded : Option ℕ) (a n : ℕ) : List Pool → Option (List Pool)
  | [] => some []
  | p :: rest =>
    if p.Contains a then
      if sizeSub p.active n = 0 then
        if embedded = some p.base then none else some rest
      else some ({ p with active := sizeSub p.active n } :: rest)
    else (releaseBehind embedded a n rest).map (p :: ·)

def releaseActive (self : Arena) : FieldPtr → Option Arena
  | .empty => some self
  | .at a =>
    let n := self.allocation (.at a)
    if self.head.Contains a then
      let active := sizeSub self.head.active n
      some { self with
        head := { self.head with active := active, used := if active = 0 then 0 else self.head.used } }
    else (releaseBehind self.embedded a n self.prev).map fun prev => { self with prev := prev }

def put (self : Arena) (a : ℕ) (text : CString) : Arena :=
  { self with mem := self.mem.write a (text.bytes ++ [0]) }

/-- Source: `vsnprintf(target, available, ...)` -/
def print (self : Arena) (target available : ℕ) (text : CString) : Arena :=
  if available = 0 then self
  else { self with mem := self.mem.write target (text.bytes.take (available - 1) ++ [0]) }

/-- The pool that is kept is the embedded one, or else the head.
Source: `__ast_string_field_free_memory` (`AST_STRINGFIELD_RESET`) -/
def reset (self : Arena) : Option Arena :=
  let preserve :=
    match self.embedded with
    | none => some self.head
    | some b => self.chain.find? fun p => p.base = b
  preserve.map fun p => { self with head := { p with used := 0, active := 0 }, prev := [] }

end Arena

/-! ## Fields -/

section Fields

variable {ι : Type} [DecidableEq ι]

namespace Storage

def clear (self : Storage ι) (i : ι) : Option (Storage ι) :=
  (self.arena.releaseActive (self.fields i)).map fun a => ⟨a, update self.fields i .empty⟩

/-- Source: `__ast_string_field_ptr_set_by_fields` -/
def ptrSet (self : Storage ι) (heap : Heap) (i : ι) : Option CString → Option (Storage ι × ℤ)
  | none => (self.clear i).map (·, 0)
  | some data =>
    if data.bytes = [] then (self.clear i).map (·, 0)
    else
      let dlen := data.length + 1
      let ptr := self.fields i
      if dlen ≤ self.arena.allocation ptr then
        match ptr with
        | .empty => some (self, 0)
        | .at a => some (⟨self.arena.put a data, self.fields⟩, 0)
      else
        match self.arena.ptrGrow dlen ptr, ptr with
        | some arena, .at a => some (⟨arena.put a data, self.fields⟩, 0)
        | _, _ =>
          match self.arena.allocSpace heap dlen with
          | none => some (self, -1)
          | some (arena, target) =>
            (arena.releaseActive ptr).map fun arena =>
              (⟨arena.put target data, update self.fields i (.at target)⟩, 0)

/-- Where a text is printed at first: at the field, or behind the used space of the head pool.
Source: `__ast_string_field_ptr_build_va` -/
def target (self : Storage ι) (i : ι) : ℕ :=
  match self.fields i with
  | .at a => a
  | .empty => self.arena.head.base + self.arena.head.used + allocationAlign

/-- Source: `__ast_string_field_ptr_build_va` -/
def available (self : Storage ι) (i : ι) : ℕ :=
  let space := self.arena.head.space
  match self.fields i with
  | .at a =>
    let own := self.arena.allocation (.at a)
    if self.arena.lastAlloc = some a then (own + space) % 2 ^ 64 else own
  | .empty => if allocationAlign < space then space - allocationAlign else 0

/-- Source: `__ast_string_field_ptr_build_va` -/
def ptrBuild (self : Storage ι) (heap : Heap) (i : ι) (text : CString) : Option (Storage ι) :=
  let ptr := self.fields i
  let target := self.target i
  let available := self.available i
  let printed := self.arena.print target available text
  let needed := text.length + 1
  if text.bytes = [] then (Storage.mk printed self.fields).clear i
  else if available < needed then
    match printed.allocSpace heap needed with
    | none => some ⟨printed, self.fields⟩
    | some (arena, target) =>
      ((arena.put target text).releaseActive ptr).map fun arena =>
        ⟨arena, update self.fields i (.at target)⟩
  else if ptr ≠ .at target then
    (printed.releaseActive ptr).map fun arena =>
      ⟨arena.claim needed, update self.fields i (.at target)⟩
  else
    let own := printed.allocation ptr
    if own < needed then
      some ⟨printed.extend target (needed - own) (alignFor (needed - own) allocationAlign), self.fields⟩
    else some ⟨printed, self.fields⟩

/-- Source: `ast_string_field_init(x, AST_STRINGFIELD_RESET)` -/
def reset (self : Storage ι) : Option (Storage ι) :=
  self.arena.reset.map fun arena => ⟨arena, fun _ => .empty⟩

/-- Source: `__ast_string_field_init` with `needed > 0` -/
def init (ι : Type) (heap : Heap) (mem : Memory) (needed : ℕ) : Option (Storage ι) :=
  let allocSize := optimalAllocSize (poolHeader + needed)
  (heap.calloc [] allocSize).map fun pool =>
    ⟨⟨mem.zero pool allocSize, ⟨pool + poolHeader, allocSize - poolHeader, 0, 0⟩, [], none, none⟩, fun _ => .empty⟩

def callocWithStringfields (ι : Type) (heap : Heap) (mem : Memory) (structSize poolSize : ℕ) : Option (Storage ι) :=
  let sizeToAlloc := optimalAllocSize (structSize + (poolHeader + poolSize))
  (heap.calloc [] sizeToAlloc).map fun allocation =>
    let base := allocation + structSize + poolHeader
    ⟨⟨mem.zero allocation sizeToAlloc, ⟨base, sizeToAlloc - structSize - poolHeader, 0, 0⟩, [], none,
      some base⟩, fun _ => .empty⟩

def value (self : Storage ι) (i : ι) : Option (List UInt8) :=
  match self.fields i with
  | .empty => some []
  | .at a => self.arena.mem.readString (2 ^ 16) a

end Storage

/-- What is done with a structure; a field is cleared with no data or an empty text.
Source: `ast_string_field_set`, `ast_string_field_build`, `AST_STRINGFIELD_RESET` -/
inductive Op (ι : Type)
  | set (i : ι) (data : Option CString)
  | build (i : ι) (text : CString)
  | reset

structure Call (ι : Type) where
  op : Op ι
  heap : Heap

def Storage.step (self : Storage ι) (c : Call ι) : Option (Storage ι) :=
  match c.op with
  | .set i data => (self.ptrSet c.heap i data).map Prod.fst
  | .build i text => self.ptrBuild c.heap i text
  | .reset => self.reset

def Storage.run (calls : List (Call ι)) (self : Storage ι) : Option (Storage ι) := calls.foldlM Storage.step self

def Op.store (stored : ι → CString) : Op ι → ι → CString
  | .set i data => update stored i (data.getD .empty)
  | .build i text => update stored i text
  | .reset => fun _ => .empty

def lastStored (calls : List (Call ι)) : ι → CString :=
  calls.foldl (fun stored c => c.op.store stored) fun _ => .empty

end Fields

end Telephony.StringFields
