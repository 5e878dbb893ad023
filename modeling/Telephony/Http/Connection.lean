import Mathlib.Algebra.Order.Ring.Int
import Mathlib.Data.List.Infix

/-!
# A connection with a read buffer

`main/iostream.c` reads lines and blocks of bytes from a connection. What is read ahead for a line
stays in a buffer. All reads are stated by the bytes that come next (`Conn.takeBytes`).
-/

namespace Telephony.Http

open List Option

inductive Arrival
  | data (bytes : List UInt8)
  | nothing
  | failed
  deriving DecidableEq, Repr

/-- Source: `struct ast_iostream` -/
structure Conn where
  rbuf : List UInt8
  arrivals : List Arrival
  deriving DecidableEq, Repr

def weight : List Arrival → ℕ
  | [] => 0
  | .data bytes :: rest => bytes.length + 1 + weight rest
  | _ :: rest => 1 + weight rest

def arrived : List Arrival → List UInt8
  | [] => []
  | .data bytes :: rest => bytes ++ arrived rest
  | _ :: rest => arrived rest

def iostreamRead (size : ℕ) : List Arrival → Option (List UInt8) × List Arrival
  | [] => (some [], [])
  | .nothing :: rest => (some [], rest)
  | .failed :: rest => (none, rest)
  | .data bytes :: rest =>
    (some (bytes.take size), if bytes.length ≤ size then rest else .data (bytes.drop size) :: rest)

lemma iostreamRead_weight {size : ℕ} {arrivals rest : List Arrival} {b : UInt8} {bytes : List UInt8}
    (h : iostreamRead size arrivals = (some (b :: bytes), rest)) : weight rest < weight arrivals := by
  unfold iostreamRead at h
  split at h
  · cases h
  · cases h
  · cases h
  · simp only [Prod.mk.injEq, Option.some.injEq] at h
    obtain ⟨hbs, rfl⟩ := h
    have hlen := congrArg List.length hbs
    rw [length_take, length_cons] at hlen
    simp only [weight]
    split_ifs with hle
    · omega
    · simp only [weight, length_drop]
      omega

lemma iostreamRead_arrived (size : ℕ) (arrivals : List Arrival) :
    arrived arrivals = (iostreamRead size arrivals).1.getD [] ++ arrived (iostreamRead size arrivals).2 := by
  cases arrivals with
  | nil => rfl
  | cons a rest =>
    cases a with
    | nothing => rfl
    | failed => rfl
    | data portion =>
      simp only [iostreamRead, arrived, getD_some]
      split_ifs with hle
      · rw [take_of_length_le hle]
      · rw [arrived, ← append_assoc, take_append_drop]

namespace Conn

def read (c : Conn) (count : ℕ) : Option (List UInt8) × Conn :=
  if count = 0 then (some [], c)
  else if c.rbuf ≠ [] then (some (c.rbuf.take count), { c with rbuf := c.rbuf.drop count })
  else ((iostreamRead count c.arrivals).1, { c with arrivals := (iostreamRead count c.arrivals).2 })

/-- The line and the connection after it. `room` is what is left of the caller's buffer, `acc` what
is in it.
Source: `ast_iostream_gets` -/
def getsLoop (room : ℕ) (rbuf : List UInt8) (arrivals : List Arrival) (acc : List UInt8) : List UInt8 × Conn :=
  if 10 ∈ rbuf then
    let len := min (rbuf.idxOf 10 + 1) (room - 1)
    (acc ++ rbuf.take len, ⟨rbuf.drop len, arrivals⟩)
  else if room - 1 ≤ rbuf.length then (acc ++ rbuf.take (room - 1), ⟨rbuf.drop (room - 1), arrivals⟩)
  else
    match _h : iostreamRead 2048 arrivals with
    | (some (b :: bytes), rest) => getsLoop (room - rbuf.length) (b :: bytes) rest (acc ++ rbuf)
    | (some [], rest) | (none, rest) => (acc ++ rbuf, ⟨[], rest⟩)
termination_by weight arrivals
decreasing_by exact iostreamRead_weight _h

def gets (c : Conn) (size : ℕ) : List UInt8 × Conn := getsLoop size c.rbuf c.arrivals []

def discard (c : Conn) (remaining : ℕ) : Bool × Conn :=
  if remaining = 0 then (true, c)
  else
    match c.read (min remaining 1024) with
    | (some (b :: bytes), c) => c.discard (remaining - (b :: bytes).length)
    | (_, c) => (false, c)
termination_by remaining
decreasing_by
  simp only [length_cons]
  omega

/-! ## The bytes that come next -/

def bytes (c : Conn) : List UInt8 := c.rbuf ++ arrived c.arrivals

def next (c : Conn) : Option (UInt8 × Conn) :=
  match c.rbuf with
  | b :: rbuf => some (b, { c with rbuf := rbuf })
  | [] =>
    match c.arrivals with
    | .data [b] :: rest => some (b, { c with arrivals := rest })
    | .data (b :: bytes) :: rest => some (b, { c with arrivals := .data bytes :: rest })
    | _ => none

def takeBytes : ℕ → Conn → Option (List UInt8 × Conn)
  | 0, c => some ([], c)
  | n + 1, c => do
    let (b, c) ← c.next
    let (bytes, c) ← takeBytes n c
    return (b :: bytes, c)

variable {c c' c₁ : Conn} {n m count : ℕ} {bs tail acc : List UInt8} {b : UInt8}

lemma next_bytes (h : c.next = some (b, c')) : c.bytes = b :: c'.bytes := by
  unfold next at h
  split at h
  · rename_i b' rbuf hrbuf
    cases h
    simp [bytes, hrbuf]
  rename_i hrbuf
  split at h
  · rename_i b' rest harr
    cases h
    simp [bytes, hrbuf, harr, arrived]
  · rename_i b' tail rest hne harr
    cases h
    simp [bytes, hrbuf, harr, arrived]
  · cases h

lemma takeBytes_succ (hnext : c.next = some (b, c')) :
    takeBytes (n + 1) c = (takeBytes n c').map fun r => (b :: r.1, r.2) := by
  simp only [takeBytes, hnext]
  cases htail : takeBytes n c' with
  | none => simp [htail]
  | some r => simp [htail]

lemma next_of_takeBytes (h : takeBytes (n + 1) c = some (bs, c')) :
    ∃ b c₀ tail, c.next = some (b, c₀) ∧ takeBytes n c₀ = some (tail, c') ∧ bs = b :: tail := by
  cases hnext : c.next with
  | none => simp [takeBytes, hnext] at h
  | some r =>
    rw [takeBytes_succ hnext, map_eq_some_iff] at h
    obtain ⟨⟨tail, c₂⟩, htail, heq⟩ := h
    cases heq
    exact ⟨_, _, tail, rfl, htail, rfl⟩

lemma takeBytes_bytes (h : takeBytes n c = some (bs, c')) : c.bytes = bs ++ c'.bytes ∧ bs.length = n := by
  induction n generalizing c bs with
  | zero =>
    cases h
    exact ⟨rfl, rfl⟩
  | succ n ih =>
    obtain ⟨b, c₀, tail, hnext, htail, rfl⟩ := next_of_takeBytes h
    obtain ⟨hbs, hlen⟩ := ih htail
    exact ⟨by rw [next_bytes hnext, hbs, cons_append], by rw [length_cons, hlen]⟩

lemma takeBytes_append (h₁ : takeBytes n c = some (bs, c₁))
    (h₂ : takeBytes m c₁ = some (tail, c')) : takeBytes (n + m) c = some (bs ++ tail, c') := by
  induction n generalizing c bs with
  | zero =>
    cases h₁
    rwa [Nat.zero_add]
  | succ n ih =>
    obtain ⟨b, c₀, front, hnext, hfrt, rfl⟩ := next_of_takeBytes h₁
    rw [Nat.add_right_comm, takeBytes_succ hnext, ih hfrt]
    rfl

lemma takeBytes_rbuf (rbuf : List UInt8) (arrivals : List Arrival) (n : ℕ) (h : n ≤ rbuf.length) :
    takeBytes n ⟨rbuf, arrivals⟩ = some (rbuf.take n, ⟨rbuf.drop n, arrivals⟩) := by
  induction n generalizing rbuf with
  | zero => rfl
  | succ n ih =>
    cases rbuf with
    | nil => cases h
    | cons b rbuf =>
      have hnext : next ⟨b :: rbuf, arrivals⟩ = some (b, ⟨rbuf, arrivals⟩) := rfl
      rw [takeBytes_succ hnext, ih rbuf (Nat.le_of_succ_le_succ h)]
      rfl

lemma takeBytes_portion (portion : List UInt8) (rest : List Arrival) (n : ℕ) (hpos : 0 < n)
    (h : n ≤ portion.length) :
    takeBytes n ⟨[], .data portion :: rest⟩ =
      some (portion.take n, ⟨[], if portion.length ≤ n then rest else .data (portion.drop n) :: rest⟩) := by
  induction n generalizing portion with
  | zero => omega
  | succ n ih =>
    cases portion with
    | nil => cases h
    | cons b portion =>
      cases portion with
      | nil =>
        have hzero : n = 0 := by simpa using h
        subst hzero
        rfl
      | cons b' portion =>
        have hnext : next ⟨[], .data (b :: b' :: portion) :: rest⟩ = some (b, ⟨[], .data (b' :: portion) :: rest⟩) :=
          rfl
        rw [takeBytes_succ hnext]
        rcases Nat.eq_zero_or_pos n with hzero | hpos'
        · subst hzero
          rfl
        · rw [ih (b' :: portion) hpos' (Nat.le_of_succ_le_succ h)]
          simp

lemma read_takeBytes (h : c.read count = (some bs, c')) (hne : bs ≠ []) :
    takeBytes bs.length c = some (bs, c') ∧ bs.length ≤ count := by
  obtain ⟨rbuf, arrivals⟩ := c
  unfold read at h
  split_ifs at h with hzero hrbuf
  · cases h
    exact absurd rfl hne
  · cases h
    refine ⟨?_, length_take_le _ _⟩
    have hlen : (rbuf.take count).length ≤ rbuf.length := by
      rw [length_take]
      omega
    rw [takeBytes_rbuf rbuf arrivals _ hlen, length_take]
    rcases Nat.le_total count rbuf.length with hle | hle
    · rw [Nat.min_eq_left hle]
    · rw [Nat.min_eq_right hle, take_of_length_le hle, take_length, drop_of_length_le hle,
        drop_length]
  simp only [not_not] at hrbuf
  subst hrbuf
  cases arrivals with
  | nil =>
    cases h
    exact absurd rfl hne
  | cons a rest =>
    cases a with
    | nothing =>
      cases h
      exact absurd rfl hne
    | failed => cases h
    | data portion =>
      cases h
      have hpos := length_pos_of_ne_nil hne
      refine ⟨?_, length_take_le _ _⟩
      have hlen : (portion.take count).length ≤ portion.length := by
        rw [length_take]
        omega
      rw [takeBytes_portion portion rest _ hpos hlen, length_take]
      rcases Nat.le_total count portion.length with hle | hle
      · rw [Nat.min_eq_left hle]
        rfl
      · simp [iostreamRead, if_pos hle]

lemma discard_takeBytes (h : c.discard n = (true, c')) : ∃ bs, takeBytes n c = some (bs, c') := by
  induction n using Nat.strong_induction_on generalizing c with
  | _ n ih =>
    rw [discard] at h
    split_ifs at h with hzero
    · cases h
      exact ⟨[], by rw [hzero]; rfl⟩
    split at h
    · rename_i b tail c₁ hread
      obtain ⟨hfrt, hle⟩ := read_takeBytes hread (by simp)
      have hlt : n - (b :: tail).length < n := by
        rw [length_cons]
        omega
      obtain ⟨rest, hrest⟩ := ih _ hlt h
      have hall := takeBytes_append hfrt hrest
      rw [Nat.add_sub_cancel' (by omega)] at hall
      exact ⟨_, hall⟩
    · cases h

/-- First some of the bytes, then the others. Induction on the number of the first ones. -/
lemma takeBytes_split (h : takeBytes (n + m) c = some (bs, c')) :
    ∃ front c₁ tail, takeBytes n c = some (front, c₁) ∧ takeBytes m c₁ = some (tail, c') ∧ bs = front ++ tail := by
  induction n generalizing c bs with
  | zero =>
    rw [Nat.zero_add] at h
    exact ⟨[], c, bs, rfl, h, rfl⟩
  | succ n ih =>
    rw [Nat.add_right_comm] at h
    obtain ⟨b, c₀, tail, hnext, htail, rfl⟩ := next_of_takeBytes h
    obtain ⟨front, c₁, tail', hfrt, hrest, happ⟩ := ih htail
    refine ⟨b :: front, c₁, tail', ?_, hrest, by rw [happ, cons_append]⟩
    rw [takeBytes_succ hnext, hfrt]
    rfl

lemma read_of_next (hnext : c.next = some (b, c')) (hcnt : 0 < count) :
    ∃ bytes c₁, c.read count = (some (b :: bytes), c₁) := by
  obtain ⟨count, rfl⟩ : ∃ k, count = k + 1 := ⟨count - 1, by omega⟩
  obtain ⟨rbuf, arrivals⟩ := c
  unfold next at hnext
  split at hnext
  · rename_i b' rbuf' hrbuf
    cases hnext
    subst hrbuf
    exact ⟨_, _, rfl⟩
  rename_i hrbuf
  subst hrbuf
  split at hnext
  · rename_i b' rest harr
    cases hnext
    subst harr
    exact ⟨_, _, rfl⟩
  · rename_i b' tail rest hne harr
    cases hnext
    subst harr
    exact ⟨_, _, rfl⟩
  · cases hnext

lemma discard_of_takeBytes (h : takeBytes n c = some (bs, c')) : c.discard n = (true, c') := by
  induction n using Nat.strong_induction_on generalizing c bs with
  | _ n ih =>
    unfold discard
    split_ifs with hzero
    · subst hzero
      cases h
      rfl
    obtain ⟨k, rfl⟩ : ∃ k, n = k + 1 := ⟨n - 1, by omega⟩
    obtain ⟨b, c₀, -, hnext, -, -⟩ := next_of_takeBytes h
    obtain ⟨bytes, c₁, hread⟩ := read_of_next hnext (show 0 < min (k + 1) 1024 by omega)
    obtain ⟨htake, hle⟩ := read_takeBytes hread (by simp)
    obtain ⟨m, hm⟩ : ∃ m, k + 1 = (b :: bytes).length + m := ⟨k + 1 - (b :: bytes).length, by omega⟩
    rw [hm] at h
    obtain ⟨front, c₂, tail, hfrt, hrest, -⟩ := takeBytes_split h
    rw [htake] at hfrt
    cases hfrt
    rw [hread]
    have hleft : k + 1 - (b :: bytes).length = m := by omega
    simp only [hleft]
    exact ih m (by rw [length_cons] at hm; omega) hrest

lemma read_bytes (c : Conn) (count : ℕ) : c.bytes = (c.read count).1.getD [] ++ (c.read count).2.bytes := by
  obtain ⟨rbuf, arrivals⟩ := c
  unfold read
  split_ifs with hzero hrbuf
  · rfl
  · rw [getD_some, bytes, bytes, ← append_assoc, take_append_drop]
  · simp only [not_not] at hrbuf
    subst hrbuf
    exact iostreamRead_arrived count arrivals

lemma read_bytes_length_le (c : Conn) (count : ℕ) : (c.read count).2.bytes.length ≤ c.bytes.length := by
  rw [read_bytes c count, length_append]
  exact Nat.le_add_left _ _

lemma not_mem_dropLast_take (l : List UInt8) (k : ℕ) : 10 ∉ (l.take (min (l.idxOf 10 + 1) k)).dropLast := by
  induction l generalizing k with
  | nil => simp
  | cons x l ih =>
    cases k with
    | zero => simp
    | succ k =>
      by_cases hx : x = 10
      · subst hx
        simp
      rw [idxOf_cons_ne _ hx, Nat.succ_min_succ, take_succ_cons]
      cases htail : l.take (min (l.idxOf 10 + 1) k) with
      | nil => simp
      | cons y tail =>
        rw [dropLast_cons_cons, ← htail]
        exact not_mem_cons_of_ne_of_not_mem (Ne.symm hx) (ih k)

lemma not_mem_dropLast_append (hacc : 10 ∉ acc) (htail : 10 ∉ tail.dropLast) : 10 ∉ (acc ++ tail).dropLast := by
  cases tail with
  | nil =>
    rw [append_nil]
    exact fun hmem => hacc (mem_of_mem_dropLast hmem)
  | cons x tail =>
    rw [dropLast_append_of_ne_nil (by simp)]
    exact fun hmem => (mem_append.mp hmem).elim hacc htail

/-- A line comes next, and a line feed is at its end only. Induction along the loop. -/
lemma getsLoop_spec (room : ℕ) (rbuf : List UInt8) (arrivals : List Arrival) (acc : List UInt8) (hacc : 10 ∉ acc) :
    acc ++ rbuf ++ arrived arrivals =
        (getsLoop room rbuf arrivals acc).1 ++ (getsLoop room rbuf arrivals acc).2.bytes ∧
      10 ∉ (getsLoop room rbuf arrivals acc).1.dropLast := by
  fun_induction getsLoop room rbuf arrivals acc with
  | case1 room rbuf arrivals acc hnl len =>
    refine ⟨?_, not_mem_dropLast_append hacc (not_mem_dropLast_take rbuf (room - 1))⟩
    rw [bytes, append_assoc acc, append_assoc, ← append_assoc (rbuf.take len), take_append_drop]
  | case2 room rbuf arrivals acc hnl hfull =>
    refine ⟨?_, not_mem_dropLast_append hacc fun hmem => ?_⟩
    · rw [bytes, append_assoc acc, append_assoc, ← append_assoc (rbuf.take (room - 1)),
        take_append_drop]
    · exact hnl (mem_of_mem_take (mem_of_mem_dropLast hmem))
  | case3 room rbuf arrivals acc hnl hfull b bytes rest hread ih =>
    have hnext : 10 ∉ acc ++ rbuf := fun hmem => (mem_append.mp hmem).elim hacc hnl
    have harr := iostreamRead_arrived 2048 arrivals
    rw [hread] at harr
    rw [harr, ← append_assoc]
    exact ih hnext
  | case4 room rbuf arrivals acc hnl hfull rest hread | case5 room rbuf arrivals acc hnl hfull rest hread =>
    have harr := iostreamRead_arrived 2048 arrivals
    rw [hread] at harr
    refine ⟨by rw [harr]; rfl, fun hmem => ?_⟩
    exact (mem_append.mp (mem_of_mem_dropLast hmem)).elim hacc hnl

lemma gets_spec (c : Conn) (size : ℕ) :
    c.bytes = (c.gets size).1 ++ (c.gets size).2.bytes ∧ 10 ∉ (c.gets size).1.dropLast := by
  have h := getsLoop_spec size c.rbuf c.arrivals [] (by simp)
  rwa [nil_append] at h

lemma gets_bytes_length_lt (c : Conn) (size : ℕ) (h : (c.gets size).1 ≠ []) :
    (c.gets size).2.bytes.length < c.bytes.length := by
  rw [(gets_spec c size).1, length_append]
  have hpos := length_pos_of_ne_nil h
  omega

/-! ## Connections without a pause -/

/-- Bytes come until the end of the stream, without a timeout or an error. -/
def Steady (c : Conn) : Prop := ∀ a ∈ c.arrivals, ∃ b bytes, a = .data (b :: bytes)

def lineOf (bytes : List UInt8) : List UInt8 := bytes.take (bytes.idxOf 10 + 1)

/-- A read of a connection without a pause gives nothing at the end of the stream only. -/
lemma iostreamRead_steady {size : ℕ} {arrivals : List Arrival} (hsize : 0 < size)
    (h : ∀ a ∈ arrivals, ∃ b bytes, a = Arrival.data (b :: bytes)) :
    (arrivals = [] ∨ ∃ b bytes, (iostreamRead size arrivals).1 = some (b :: bytes)) ∧
      ∀ a ∈ (iostreamRead size arrivals).2, ∃ b bytes, a = Arrival.data (b :: bytes) := by
  cases arrivals with
  | nil => exact ⟨.inl rfl, nofun⟩
  | cons a rest =>
    obtain ⟨⟨b, bytes, rfl⟩, hrest⟩ := forall_mem_cons.mp h
    obtain ⟨k, rfl⟩ : ∃ k, size = k + 1 := ⟨size - 1, by omega⟩
    refine ⟨.inr ⟨b, bytes.take k, rfl⟩, ?_⟩
    simp only [iostreamRead]
    split_ifs with hle
    · exact hrest
    · obtain ⟨b', bytes', hdrop⟩ := exists_cons_of_ne_nil (l := (b :: bytes).drop (k + 1)) (by
        rw [Ne, drop_eq_nil_iff]
        exact hle)
      exact forall_mem_cons.mpr ⟨⟨b', bytes', by rw [hdrop]⟩, hrest⟩

lemma next_steady (h : c.Steady) (hnext : c.next = some (b, c')) : c'.Steady := by
  unfold next at hnext
  split at hnext
  · cases hnext
    exact h
  split at hnext
  · rename_i harr
    cases hnext
    exact fun a ha => h a (harr ▸ mem_cons_of_mem _ ha)
  · rename_i b' tail rest hne harr
    cases hnext
    obtain ⟨x, tail, rfl⟩ := exists_cons_of_ne_nil fun hnil => hne (hnil ▸ rfl)
    exact forall_mem_cons.mpr ⟨⟨x, tail, rfl⟩, fun a ha => h a (harr ▸ mem_cons_of_mem _ ha)⟩
  · cases hnext

lemma takeBytes_steady (h : c.Steady) (htake : takeBytes n c = some (bs, c')) : c'.Steady := by
  induction n generalizing c bs with
  | zero =>
    cases htake
    exact h
  | succ n ih =>
    obtain ⟨b, c₀, tail, hnext, htail, -⟩ := next_of_takeBytes htake
    exact ih (next_steady h hnext) htail

lemma read_steady (h : c.Steady) (hcnt : 0 < count) : (c.read count).1.isSome = true ∧ (c.read count).2.Steady := by
  obtain ⟨hread, hrest⟩ := iostreamRead_steady hcnt h
  unfold read
  split_ifs with hzero hrbuf
  · omega
  · exact ⟨rfl, h⟩
  refine ⟨?_, hrest⟩
  rcases hread with hnil | ⟨b, bytes, hsome⟩
  · rw [hnil]
    rfl
  · rw [hsome]
    rfl

/-- Induction along the loop. -/
lemma getsLoop_steady (room : ℕ) (rbuf : List UInt8) (arrivals : List Arrival) (acc : List UInt8)
    (h : ∀ a ∈ arrivals, ∃ b bytes, a = Arrival.data (b :: bytes)) :
    (getsLoop room rbuf arrivals acc).1 = acc ++ (lineOf (rbuf ++ arrived arrivals)).take (room - 1) ∧
      (getsLoop room rbuf arrivals acc).2.Steady := by
  fun_induction getsLoop room rbuf arrivals acc with
  | case1 room rbuf arrivals acc hnl len =>
    refine ⟨?_, h⟩
    have hle : rbuf.idxOf 10 + 1 ≤ rbuf.length := idxOf_lt_length_of_mem hnl
    rw [lineOf, idxOf_append_of_mem hnl, take_append_of_le_length hle, take_take, Nat.min_comm]
  | case2 room rbuf arrivals acc hnl hfull =>
    refine ⟨?_, h⟩
    rw [lineOf, idxOf_append_of_notMem hnl, Nat.add_assoc, take_length_add_append,
      take_append_of_le_length hfull]
  | case3 room rbuf arrivals acc hnl hfull b bytes rest hread ih =>
    have harr := iostreamRead_arrived 2048 arrivals
    have hrest := (iostreamRead_steady (by decide : 0 < 2048) h).2
    rw [hread] at harr hrest
    obtain ⟨hline, hstd⟩ := ih hrest
    refine ⟨?_, hstd⟩
    rw [hline, harr, lineOf, lineOf, idxOf_append_of_notMem hnl, Nat.add_assoc, take_length_add_append,
      append_assoc, Option.getD_some]
    obtain ⟨k, hk⟩ : ∃ k, room - 1 = rbuf.length + k := ⟨room - 1 - rbuf.length, by omega⟩
    rw [hk, take_length_add_append, show room - rbuf.length - 1 = k by omega]
  | case4 room rbuf arrivals acc hnl hfull rest hread =>
    obtain ⟨hnil | ⟨b, bytes, hsome⟩, hrest⟩ := iostreamRead_steady (by decide : 0 < 2048) h
    · subst hnil
      cases hread
      refine ⟨?_, nofun⟩
      rw [lineOf, arrived, append_nil, idxOf_of_notMem hnl, take_of_length_le (Nat.le_succ _),
        take_of_length_le (by omega)]
    · rw [hread] at hsome
      cases hsome
  | case5 room rbuf arrivals acc hnl hfull rest hread =>
    obtain ⟨hnil | ⟨b, bytes, hsome⟩, -⟩ := iostreamRead_steady (by decide : 0 < 2048) h
    · subst hnil
      cases hread
    · rw [hread] at hsome
      cases hsome

lemma gets_steady (h : c.Steady) (size : ℕ) :
    (c.gets size).1 = (lineOf c.bytes).take (size - 1) ∧ (c.gets size).2.Steady := by
  have hloop := getsLoop_steady size c.rbuf c.arrivals [] h
  rwa [nil_append] at hloop

end Conn

end Telephony.Http
