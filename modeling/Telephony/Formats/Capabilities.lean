import Mathlib.Data.List.Nodup
import Telephony.Lib.Loop
import Telephony.Lib.Runs

/-!
# Format capabilities

`main/format_cap.c` keeps the formats of a channel in two ways: a vector in the order of preference,
and for each codec a list. Both hold the same objects, which count their references. Memory is
always given.

A format is known by its address, and by what `main/format.c` says about it (`FormatApi`). A step
that uses an object after it was destroyed has no result (`none`).
-/

namespace Telephony.Formats

open Lib Function

/-! ## Data model -/

inductive MediaType
  | unknown
  | audio
  | video
  | image
  | text
  | endd
  deriving DecidableEq, Repr

inductive CmpRes
  | equal
  | notEqual
  | subset
  deriving DecidableEq, Repr

/-- Source: `ast_format_get_codec_id`, `ast_format_get_type`, `ast_format_get_default_ms`,
`ast_format_cmp`, `ast_format_joint` -/
structure FormatApi (F : Type) where
  codecId : F → ℕ
  mediaType : F → MediaType
  defaultMs : F → ℕ
  cmp : F → F → CmpRes
  joint : F → F → Option F

structure Framed (F : Type) where
  format : F
  framing : ℕ
  refs : ℕ

abbrev Objects (F : Type) := ℕ → Option (Framed F)

/-- Source: `struct ast_format_cap`. `next` is an address that was never used. -/
structure Cap (F : Type) where
  formats : List (List ℕ)
  preferenceOrder : List ℕ
  framing : ℕ
  objects : Objects F
  next : ℕ

def Cap.init (F : Type) : Cap F := ⟨[], [], 0xFFFFFFFF, fun _ => none, 0⟩

variable {F : Type}

/-! ## References -/

/-- Source: `ao2_ref` with 1 -/
def Objects.ref (objects : Objects F) (id : ℕ) : Option (Objects F) := do
  let o ← objects id
  return update objects id (some { o with refs := o.refs + 1 })

/-- Source: `ao2_ref` with -1, `format_cap_framed_destroy` -/
def Objects.unref (objects : Objects F) (id : ℕ) : Option (Objects F) := do
  let o ← objects id
  return update objects id (if o.refs = 1 then none else some { o with refs := o.refs - 1 })

/-! ## Adding -/

def formatInFormatCap (api : FormatApi F) (objects : Objects F) (format : F) : List ℕ → Option Bool
  | [] => some false
  | id :: rest => do
    let framed ← objects id
    if api.codecId format = api.codecId framed.format then return true
    else formatInFormatCap api objects format rest

def vectorReplace (formats : List (List ℕ)) (k : ℕ) : List (List ℕ) :=
  (formats ++ List.replicate (k + 1 - formats.length) []).set k []

def framedInit (api : FormatApi F) (id : ℕ) (cap : Cap F) (format : F) (framing : ℕ) : Option (Cap F) := do
  let framed ← cap.objects id
  let k := api.codecId format
  let formats := if cap.formats.length ≤ k then vectorReplace cap.formats k else cap.formats
  let objects ← Objects.ref (update cap.objects id (some { framed with framing := framing })) id
  return { cap with
    formats := formats.modify k (id :: ·)
    preferenceOrder := cap.preferenceOrder ++ [id]
    framing := min cap.framing (if framing ≠ 0 then framing else api.defaultMs format)
    objects := objects }

def append (api : FormatApi F) (format : F) (framing : ℕ) (cap : Cap F) : Option (Cap F) := do
  if ← formatInFormatCap api cap.objects format cap.preferenceOrder then return cap
  else
    framedInit api cap.next
      { cap with objects := update cap.objects cap.next (some ⟨format, 0, 1⟩), next := cap.next + 1 }
      format framing

/-! ## Replacing -/

/-- Source: `format_cap_replace` ("for (i = 0; …)") -/
def replaceLoop (api : FormatApi F) (format : F) (framing : ℕ) (objects : Objects F) : List ℕ → Option (Objects F)
  | [] => some objects
  | id :: rest => do
    let framed ← objects id
    if api.codecId format = api.codecId framed.format then
      return update objects id (some { framed with format := format, framing := framing })
    else replaceLoop api format framing objects rest

def formatCapReplace (api : FormatApi F) (format : F) (framing : ℕ) (cap : Cap F) : Option (Cap F) := do
  let objects ← replaceLoop api format framing cap.objects cap.preferenceOrder
  return { cap with objects := objects }

/-! ## Removing -/

section Removing

variable [DecidableEq F]

/-- Source: `AST_VECTOR_REMOVE_CMP_ORDERED`, `FORMAT_CAP_FRAMED_ELEM_CMP`; the loop of
`ast_format_cap_remove` -/
def removeCmp (objects : Objects F) (format : F) : List ℕ → Option (Option ℕ × List ℕ)
  | [] => some (none, [])
  | id :: rest => do
    let framed ← objects id
    if framed.format = format then return (some id, rest)
    else
      let (found, kept) ← removeCmp objects format rest
      return (found, id :: kept)

def cleanup (objects : Objects F) : Option ℕ → Option (Objects F)
  | none => some objects
  | some id => objects.unref id

/-- Take a format out of the preferences: 0, or -1 when it is not there.
Source: `AST_VECTOR_REMOVE_CMP_ORDERED` -/
def removePreference (format : F) (cap : Cap F) : Option (ℤ × Cap F) := do
  let (found, order) ← removeCmp cap.objects format cap.preferenceOrder
  let objects ← cleanup cap.objects found
  return (if found.isSome then 0 else -1, { cap with preferenceOrder := order, objects := objects })

def remove (api : FormatApi F) (format : F) (cap : Cap F) : Option (ℤ × Cap F) := do
  let k := api.codecId format
  if cap.formats.length ≤ k then return (-1, cap)
  else
    let (found, list) ← removeCmp cap.objects format (cap.formats.getD k [])
    let objects ← cleanup cap.objects found
    removePreference format { cap with formats := cap.formats.set k list, objects := objects }

/-- The objects of one list that stay, and the set without the others.
Source: `ast_format_cap_remove_by_type` ("AST_LIST_TRAVERSE_SAFE_BEGIN") -/
def removeTypeLoop (api : FormatApi F) (type : MediaType) : List ℕ → Cap F → Option (List ℕ × Cap F)
  | [], cap => some ([], cap)
  | id :: rest, cap => do
    let framed ← cap.objects id
    if type ≠ .unknown ∧ api.mediaType framed.format ≠ type then
      let (kept, cap) ← removeTypeLoop api type rest cap
      return (id :: kept, cap)
    else
      let (_, cap) ← removePreference framed.format cap
      let objects ← cap.objects.unref id
      removeTypeLoop api type rest { cap with objects := objects }

/-- Source: `ast_format_cap_remove_by_type` ("for (idx = 0; …)"), the last `n` lists -/
def removeByTypeLoop (api : FormatApi F) (type : MediaType) : ℕ → Cap F → Option (Cap F)
  | 0, cap => some cap
  | n + 1, cap => do
    let idx := cap.formats.length - (n + 1)
    let (kept, cap) ← removeTypeLoop api type (cap.formats.getD idx []) cap
    removeByTypeLoop api type n { cap with formats := cap.formats.set idx kept }

def removeByType (api : FormatApi F) (type : MediaType) (cap : Cap F) : Option (Cap F) :=
  removeByTypeLoop api type cap.formats.length cap

end Removing

/-! ## Two sets -/

abbrev World (F : Type) := ℕ → Cap F

/-- One round over the preferences of another set, which are looked up anew each time.
Source: `ast_format_cap_append_from_cap`, `ast_format_cap_replace_from_cap` -/
def fromCapRound (api : FormatApi F) (act : F → ℕ → Cap F → Option (Cap F)) (dst src : ℕ) (type : MediaType)
    (s : World F × ℕ) : Option ((World F × ℕ) ⊕ World F) :=
  match (s.1 src).preferenceOrder[s.2]? with
  | none => some (.inr s.1)
  | some id => do
    let framed ← (s.1 src).objects id
    if type = .unknown ∨ api.mediaType framed.format = type then
      let cap ← act framed.format framed.framing (s.1 dst)
      return .inl (update s.1 dst cap, s.2 + 1)
    else return .inl (s.1, s.2 + 1)

/-- `none` when the loop does not end after as many rounds as there are preferences. -/
def fromCap (api : FormatApi F) (act : F → ℕ → Cap F → Option (Cap F)) (dst src : ℕ) (type : MediaType)
    (w : World F) : Option (World F) :=
  iterate (fromCapRound api act dst src type) ((w src).preferenceOrder.length + 1) (w, 0)

def appendFromCap (api : FormatApi F) : (dst src : ℕ) → MediaType → World F → Option (World F) :=
  fromCap api (append api)

def replaceFromCap (api : FormatApi F) : (dst src : ℕ) → MediaType → World F → Option (World F) :=
  fromCap api (formatCapReplace api)

/-! ## Negotiation -/

/-- Source: `ast_format_cap_get_compatible_format` ("AST_LIST_TRAVERSE") -/
def compatibleFormatLoop (api : FormatApi F) (objects : Objects F) (format : F) (result : Option F) :
    List ℕ → Option (Option F)
  | [] => some result
  | id :: rest => do
    let framed ← objects id
    match api.cmp format framed.format with
    | .notEqual => compatibleFormatLoop api objects format result rest
    | .equal => return api.joint format framed.format
    | .subset => compatibleFormatLoop api objects format (api.joint format framed.format) rest

def getCompatibleFormat (api : FormatApi F) (cap : Cap F) (format : F) : Option (Option F) :=
  if cap.formats.length ≤ api.codecId format then some none
  else compatibleFormatLoop api cap.objects format none (cap.formats.getD (api.codecId format) [])

/-- Source: `ast_format_cap_iscompatible_format` ("AST_LIST_TRAVERSE") -/
def isCompatibleFormatLoop (api : FormatApi F) (objects : Objects F) (format : F) (res : CmpRes) :
    List ℕ → Option CmpRes
  | [] => some res
  | id :: rest => do
    let framed ← objects id
    match api.cmp format framed.format with
    | .notEqual => isCompatibleFormatLoop api objects format res rest
    | .equal => return .equal
    | .subset => isCompatibleFormatLoop api objects format .subset rest

def isCompatibleFormat (api : FormatApi F) (cap : Cap F) (format : F) : Option CmpRes :=
  if cap.formats.length ≤ api.codecId format then some .notEqual
  else isCompatibleFormatLoop api cap.objects format .notEqual (cap.formats.getD (api.codecId format) [])

/-- Source: `ast_format_cap_get_compatible` ("for (idx = 0; …)") -/
def getCompatibleLoop (api : FormatApi F) (cap1 cap2 : Cap F) : List ℕ → Cap F → Option (Cap F)
  | [], result => some result
  | id :: rest, result => do
    let framed ← cap1.objects id
    match ← getCompatibleFormat api cap2 framed.format with
    | none => getCompatibleLoop api cap1 cap2 rest result
    | some format =>
      let result ← append api format framed.framing result
      getCompatibleLoop api cap1 cap2 rest result

def getCompatible (api : FormatApi F) (cap1 cap2 result : Cap F) : Option (Cap F) :=
  getCompatibleLoop api cap1 cap2 cap1.preferenceOrder result

/-- Source: `ast_format_cap_iscompatible` ("for (idx = 0; …)") -/
def isCompatibleLoop (api : FormatApi F) (cap1 cap2 : Cap F) : List ℕ → Option Bool
  | [] => some false
  | id :: rest => do
    let framed ← cap1.objects id
    let res ← isCompatibleFormat api cap2 framed.format
    if res ≠ .notEqual then return true else isCompatibleLoop api cap1 cap2 rest

def isCompatible (api : FormatApi F) (cap1 cap2 : Cap F) : Option Bool :=
  isCompatibleLoop api cap1 cap2 cap1.preferenceOrder

/-! ## Sequences of operations -/

inductive Op (F : Type)
  | append (cap : ℕ) (format : F) (framing : ℕ)
  | appendFromCap (dst src : ℕ) (type : MediaType)
  | replaceFromCap (dst src : ℕ) (type : MediaType)
  | remove (cap : ℕ) (format : F)
  | removeByType (cap : ℕ) (type : MediaType)

def onCap (i : ℕ) (act : Cap F → Option (Cap F)) (w : World F) : Option (World F) := do
  let cap ← act (w i)
  return update w i cap

def step [DecidableEq F] (api : FormatApi F) (w : World F) : Op F → Option (World F)
  | .append i format framing => onCap i (append api format framing) w
  | .appendFromCap dst src type => appendFromCap api dst src type w
  | .replaceFromCap dst src type => replaceFromCap api dst src type w
  | .remove i format => onCap i (fun cap => (remove api format cap).map Prod.snd) w
  | .removeByType i type => onCap i (removeByType api type) w

def run [DecidableEq F] (api : FormatApi F) (ops : List (Op F)) : Option (World F) :=
  ops.foldlM (step api) fun _ => Cap.init F

end Telephony.Formats
