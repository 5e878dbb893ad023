import Telephony.Lib.Runs

/-!
# The tables of the translation matrix

The codecs that translators are registered for get an index: a place in a table of codec ids, and a
row and a column of the matrix. When the places are used up both are allocated anew. An access
behind the memory of one of them gives `none`.
-/

namespace Telephony.Translate

open Lib

def initIndex : ℕ := 32

def growIndex : ℕ := 16

/-- The ids are the used part of the table, so that their number is `cur_max_index`; `tableSize` and
`matrixSize` are the dimensions that the table and the matrix were allocated with.
Source: `index_size`, `__indextable`, `cur_max_index`, `__matrix` -/
structure Tables where
  indexSize : ℕ
  tableSize : ℕ
  matrixSize : ℕ
  ids : List ℕ
  deriving DecidableEq, Repr

/-- Whether the codec has an index now.
Source: `add_codec2index` -/
def Tables.add (id : ℕ) (t : Tables) : Option (Bool × Tables) :=
  if id ∈ t.ids then some (true, t)
  else if t.ids.length = t.indexSize then some (false, t)
  else if t.ids.length < t.tableSize then some (true, { t with ids := t.ids ++ [id] })
  else none

/-- `granted` is the number of allocations that succeed. The old rows that are freed and the old ids
that are copied are counted by the old `index_size`.
Source: `matrix_resize` (not `init`) -/
def Tables.resize (granted : ℕ) (t : Tables) : Option (Bool × Tables) :=
  let size := t.indexSize + growIndex
  if granted < 1 + size + 1 then some (false, { t with indexSize := size })
  else if t.indexSize ≤ t.matrixSize ∧ t.indexSize ≤ t.tableSize then some (true, ⟨size, size, size, t.ids⟩)
  else none

/-- The entries that are written: all that `index_size` counts, and those of the codecs.
Source: `matrix_rebuild`, `matrix_clear`, `matrix_get` -/
def Tables.rebuild (t : Tables) : Option Tables :=
  if t.indexSize ≤ t.matrixSize ∧ t.ids.length ≤ t.matrixSize then some t else none

/-- A translator between two codecs; `valid` tells whether the tests of its other fields succeed. -/
structure Registration where
  src : ℕ
  dst : ℕ
  valid : Bool
  granted : ℕ
  deriving DecidableEq, Repr

/-- Source: `__ast_register_translator` -/
def Tables.insert (r : Registration) (t : Tables) : Option Tables := if r.valid then t.rebuild else some t

/-- Source: `__ast_register_translator` (`matrix_resize(0)`) -/
def Tables.grow (r : Registration) (t : Tables) : Option Tables := do
  let (ok, t) ← t.resize r.granted
  if ok then
    let (_, t) ← t.add r.src
    let (_, t) ← t.add r.dst
    t.insert r
  else some t

/-- Source: `__ast_register_translator` -/
def Tables.register (t : Tables) (r : Registration) : Option Tables := do
  let (ok, t) ← t.add r.src
  let (ok, t) ← if ok then t.add r.dst else some (false, t)
  if ok then t.insert r else t.grow r

/-- Source: `ast_translate_init` -/
def Tables.start : Tables := ⟨initIndex, initIndex, initIndex, []⟩

/-- The size is that of the table and of the matrix, and the codecs fit. -/
def Tables.Sound (t : Tables) : Prop :=
  t.tableSize = t.indexSize ∧ t.matrixSize = t.indexSize ∧ t.ids.length ≤ t.indexSize

/-- The ids with one more, if it is a new one. -/
def enter (id : ℕ) (ids : List ℕ) : List ℕ := if id ∈ ids then ids else ids ++ [id]

/-- Both codecs have a place, or all allocations of the growth succeed: the row of rows, the rows,
the table. -/
def Tables.Granted (t : Tables) (r : Registration) : Prop :=
  (enter r.dst (enter r.src t.ids)).length ≤ t.indexSize ∨ 1 + (t.indexSize + growIndex) + 1 ≤ r.granted

section Register

variable {size : ℕ} {ids : List ℕ}

lemma length_enter (id : ℕ) (ids : List ℕ) :
    ids.length ≤ (enter id ids).length ∧ (enter id ids).length ≤ ids.length + 1 := by
  unfold enter
  grind

lemma add_sound (hids : ids.length ≤ size) (id : ℕ) :
    Tables.add id ⟨size, size, size, ids⟩ =
      some (if (enter id ids).length ≤ size then (true, ⟨size, size, size, enter id ids⟩)
        else (false, ⟨size, size, size, ids⟩)) := by
  unfold Tables.add enter
  grind

section

variable (hids : ids.length ≤ size) (r : Registration)
include hids

lemma insert_sound : Tables.insert r ⟨size, size, size, ids⟩ = some ⟨size, size, size, ids⟩ := by
  simp [Tables.insert, Tables.rebuild, hids]

lemma grow_iff :
    (∃ t', Tables.grow r ⟨size, size, size, ids⟩ = some t' ∧ t'.Sound) ↔ 1 + (size + growIndex) + 1 ≤ r.granted := by
  have hsrc := length_enter r.src ids
  have hdst := length_enter r.dst (enter r.src ids)
  have hgrow : (enter r.dst (enter r.src ids)).length ≤ size + growIndex := by
    unfold growIndex
    omega
  rw [← not_lt]
  unfold Tables.grow Tables.resize
  by_cases hfew : r.granted < 1 + (size + growIndex) + 1
  · simp [hfew, Tables.Sound, show growIndex ≠ 0 by decide]
  simp only [hfew, if_false, le_refl, and_self, if_true, Option.bind_eq_bind, Option.bind_some]
  rw [add_sound (by omega), if_pos (by omega), Option.bind_some, add_sound (by omega), if_pos hgrow, Option.bind_some,
    insert_sound hgrow]
  simpa [Tables.Sound] using hgrow

lemma register_iff : (∃ t', Tables.register ⟨size, size, size, ids⟩ r = some t' ∧ t'.Sound) ↔
      Tables.Granted ⟨size, size, size, ids⟩ r := by
  have hdst := length_enter r.dst (enter r.src ids)
  unfold Tables.register Tables.Granted
  rw [add_sound hids]
  by_cases hfst : (enter r.src ids).length ≤ size
  · by_cases hboth : (enter r.dst (enter r.src ids)).length ≤ size
    · simp [hfst, hboth, add_sound hfst, insert_sound hboth, Tables.Sound]
    · simp [hfst, hboth, add_sound hfst, grow_iff hfst]
  · have hboth : ¬(enter r.dst (enter r.src ids)).length ≤ size := by omega
    simp [hfst, hboth, grow_iff hids]

end

end Register

/-- **The tables stay usable just if no growth fails.** -/
theorem register_sound_iff (rs : List Registration) :
    Each Tables.register (fun t r => ∃ t', t.register r = some t' ∧ t'.Sound) .start rs ↔
      Each Tables.register Tables.Granted .start rs := by
  refine each_iff_of_inv (fun t r (h : t.Sound) => ?_) ?_ ⟨rfl, rfl, by decide⟩
  · obtain ⟨size, tableSize, matrixSize, ids⟩ := t
    obtain ⟨rfl : tableSize = size, rfl : matrixSize = tableSize, hids⟩ := h
    exact register_iff hids r
  · rintro t r - ⟨t', ht, hsnd⟩ _ hs
    cases ht.symm.trans hs
    exact hsnd

/-- The 33rd codec, with no memory for the tables; the next registration clears 48 rows of 32. -/
theorem register_overrun :
    ((List.range 17).map fun i => ⟨2 * i, 2 * i + 1, true, 0⟩).foldlM Tables.register .start =
        some ⟨48, 32, 32, List.range 32⟩ ∧
      Tables.register ⟨48, 32, 32, List.range 32⟩ ⟨0, 1, true, 0⟩ = none := by
  decide

end Telephony.Translate
