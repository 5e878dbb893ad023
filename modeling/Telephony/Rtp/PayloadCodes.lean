import Mathlib.Algebra.Order.Ring.Int
import Mathlib.Data.List.Basic

/-!
# Payload numbers of a call

`main/rtp_engine.c` gives the formats of a call the numbers that RTP packets carry. A format has a
default number from a table that all calls share; when the number is in use in this call, the next
free one is taken. The search passes over the numbers of a list that is meant to be built anew for
each search. The list is `static` and is not cleared, so the marks of all earlier searches, of all
calls, are in it.
-/

namespace Telephony.Rtp.PayloadCodes

open List Function

/-! ## Data model -/

/-- Source: `enum ast_format_cmp_res` -/
inductive FormatCmp
  | equal
  | notEqual
  | subset
  deriving DecidableEq, Repr

structure PayloadType (F : Type) where
  format : Option F
  asteriskFormat : Bool
  payload : ℤ
  rtpCode : ℤ
  primaryMapping : Bool
  whenRetired : ℕ
  sampleRate : ℕ
  deriving DecidableEq, Repr

abbrev Mapping (F : Type) := List (Option (PayloadType F))

/-- What all calls share and no operation changes: how formats compare, the table of default
numbers, which has 128 places, and the options.
Source: `static_RTP_PT`, `ast_option_rtpusedynamic`, `ast_option_rtpptdynamic` -/
structure Env (F : Type) where
  cmp : F → F → FormatCmp
  staticPt : ℕ → Option (PayloadType F)
  staticPt_end : ∀ n, 128 ≤ n → staticPt n = none
  useDynamic : Bool
  ptDynamic : ℕ

abbrev Ignore := ℕ → Bool

variable {F : Type}

/-- Source: `ast_format_cmp` -/
def Env.formatCmp (env : Env F) : Option F → Option F → FormatCmp
  | some f, some g => env.cmp f g
  | _, _ => .notEqual

/-! ## The mapping -/

namespace Mapping

def get (rx : Mapping F) (i : ℕ) : Option (PayloadType F) := rx.getD i none

def replace (rx : Mapping F) (i : ℕ) (type : PayloadType F) : Mapping F :=
  (rx ++ replicate (i + 1 - rx.length) none).set i (some type)

end Mapping

def Env.same (env : Env F) (current toMatch : PayloadType F) : Bool :=
  if current.asteriskFormat && toMatch.asteriskFormat then
    env.formatCmp current.format toMatch.format ≠ .notEqual
  else if !current.asteriskFormat && !toMatch.asteriskFormat then current.rtpCode = toMatch.rtpCode
  else false

def mappingRxClearPrimary (env : Env F) (rx : Mapping F) (slot : ℕ) (toMatch : PayloadType F) (now : ℕ) : Mapping F :=
  if toMatch.primaryMapping then
    rx.mapIdx fun i current => current.map fun type =>
      if i ≠ slot ∧ type.primaryMapping ∧ env.same type toMatch then
        { type with primaryMapping := false, whenRetired := now }
      else type
  else rx

/-- Source: `rtp_codecs_payload_set_rx`, `rtp_codecs_payload_replace_rx` -/
def payloadSetRx (env : Env F) (rx : Mapping F) (slot : ℕ) (type : PayloadType F) (replace : Bool) (now : ℕ) :
    Mapping F :=
  if replace then mappingRxClearPrimary env (rx.replace slot type) slot type now else rx.replace slot type

/-! ## Searches -/

def findStaticPayloadType (env : Env F) (asteriskFormat : Bool) (format : Option F) (code : ℤ) : Option ℕ :=
  (range 128).find? fun i =>
    match env.staticPt i with
    | none => false
    | some type =>
      if asteriskFormat then
        format.isSome && type.asteriskFormat && env.formatCmp format type.format ≠ .notEqual
      else !type.asteriskFormat && type.rtpCode = code

def findUnusedPayloadInRange (rx : Mapping F) (start stop : ℕ) (ignore : Ignore) : Option ℕ :=
  (List.range' start (stop - start)).find? fun x => !ignore x && (rx.get x).isNone

def findUnusedPayload (env : Env F) (rx : Mapping F) : Option ℕ :=
  let table : Ignore := fun x => (env.staticPt x).isSome
  findUnusedPayloadInRange rx 96 128 table <|>
    (if env.useDynamic then
      findUnusedPayloadInRange rx 96 128 fun x => (x = 101 || x = 121) && table x
    else none) <|>
    findUnusedPayloadInRange rx (max env.ptDynamic 35) 63 table <|>
    findUnusedPayloadInRange rx (max env.ptDynamic 20) 35 table <|>
    findUnusedPayloadInRange rx (max env.ptDynamic 0) 20 table

def findNonPrimaryDynamicRx (rx : Mapping F) : Option ℕ :=
  ((List.range' 96 (rx.length - 96)).foldl (fun best i =>
    match rx.get i with
    | none => best
    | some type =>
      if type.primaryMapping then best
      else
        match best with
        | none => some (i, type.whenRetired)
        | some (j, oldest) => if type.whenRetired < oldest then some (i, type.whenRetired) else some (j, oldest)) none).map
    Prod.fst

/-! ## The assignment -/

structure Request (F : Type) where
  asteriskFormat : Bool
  format : Option F
  code : ℤ
  sampleRate : ℕ
  now : ℕ
  deriving DecidableEq, Repr

structure Outcome (F : Type) where
  ignore : Ignore
  rx : Mapping F
  number : ℤ

def payloadTypeAlloc (format : Option F) (payload code : ℤ) (sampleRate : ℕ) : PayloadType F :=
  ⟨format, format.isSome, payload, code, true, 0, sampleRate⟩

/-- The slots in use in this call are marked when they have an entry in the table; all other marks
stay. -/
def marked (env : Env F) (ignore : Ignore) (rx : Mapping F) : Ignore :=
  fun i => if (rx.get i).isSome then (env.staticPt i).isSome else ignore i

def Available (rx : Mapping F) (payload : ℤ) : Prop :=
  -1 < payload ∧ (payload < 96 ∨ rx.length ≤ payload ∨ rx.get payload.toNat = none)

instance availableDecidable (rx : Mapping F) (payload : ℤ) : Decidable (Available rx payload) :=
  decidable_of_iff (-1 < payload ∧ (payload < 96 ∨ rx.length ≤ payload ∨ (rx.get payload.toNat).isNone = true))
    (by simp [Available])

/-- The slot when the default one is in use, and whether other mappings of the format are retired:
the next free one, else any free one, else one that was retired. -/
def chooseSlot (env : Env F) (ignore : Ignore) (rx : Mapping F) (payload : ℤ) : Option (ℕ × Bool) :=
  match (if -1 < payload then findUnusedPayloadInRange rx payload.toNat 128 ignore else none) with
  | some p => some (p, false)
  | none => (findUnusedPayload env rx <|> findNonPrimaryDynamicRx rx).map fun p => (p, true)

def assignPayloadCodeRx (env : Env F) (ignore : Ignore) (rx : Mapping F) (req : Request F) (explicit : Bool) :
    Outcome F :=
  let payload : ℤ :=
    if explicit then req.code
    else
      match findStaticPayloadType env req.asteriskFormat req.format req.code with
      | some p => p
      | none => -1
  if !explicit ∧ payload < 0 ∧ (!req.asteriskFormat ∨ !env.useDynamic) then ⟨ignore, rx, payload⟩
  else
    let newType := payloadTypeAlloc req.format payload req.code req.sampleRate
    let ignore := marked env ignore rx
    if Available rx payload then ⟨ignore, payloadSetRx env rx payload.toNat newType true req.now, payload⟩
    else if explicit then ⟨ignore, rx, -1⟩
    else
      match chooseSlot env ignore rx payload with
      | some (p, replace) => ⟨ignore, payloadSetRx env rx p { newType with payload := p } replace req.now, p⟩
      | none => ⟨ignore, rx, -1⟩

/-- The slot of a mapping that serves the request.
Source: `ast_rtp_codecs_payload_code_sample_rate` -/
def findMapped (env : Env F) (rx : Mapping F) (req : Request F) : Option ℕ :=
  (range rx.length).find? fun i =>
    match rx.get i with
    | none => false
    | some type =>
      if req.asteriskFormat then
        req.format.isSome && type.asteriskFormat && type.primaryMapping &&
          env.formatCmp req.format type.format = .equal
      else
        !type.asteriskFormat && type.primaryMapping && type.rtpCode = req.code &&
          (req.sampleRate = 0 || type.sampleRate = req.sampleRate)

def payloadCodeSampleRate (env : Env F) (ignore : Ignore) (rx : Mapping F) (req : Request F) : Outcome F :=
  match findMapped env rx req with
  | some p => ⟨ignore, rx, p⟩
  | none => assignPayloadCodeRx env ignore rx req false

/-! ## Runs -/

/-- What is done to a codecs structure and touches its numbers. A copy takes over types from
another structure, each into its slot at a time.
Source: `ast_rtp_codecs_payload_code_sample_rate`, `ast_rtp_codecs_payload_set_rx`,
`ast_rtp_codecs_payload_set_rx_sample_rate`, `ast_rtp_codecs_payloads_clear`,
`ast_rtp_codecs_payloads_copy`, `ast_rtp_codecs_payloads_xover` -/
inductive Op (F : Type)
  | code (req : Request F)
  | setRx (code : ℤ) (format : Option F) (now : ℕ)
  | setRxSampleRate (code : ℤ) (format : Option F) (sampleRate now : ℕ)
  | clear
  | copy (types : List (ℕ × PayloadType F × ℕ))
  deriving DecidableEq, Repr

def perform (env : Env F) (ignore : Ignore) (rx : Mapping F) : Op F → Outcome F
  | .code req => payloadCodeSampleRate env ignore rx req
  | .setRx code format now => assignPayloadCodeRx env ignore rx ⟨true, format, code, 0, now⟩ true
  | .setRxSampleRate code format sampleRate now =>
    assignPayloadCodeRx env ignore rx ⟨true, format, code, sampleRate, now⟩ false
  | .clear => ⟨ignore, [], 0⟩
  | .copy types =>
    ⟨ignore, types.foldl (fun rx entry => payloadSetRx env rx entry.1 entry.2.1 true entry.2.2) rx, 0⟩

structure World (F : Type) where
  ignore : Ignore
  codecs : ℕ → Mapping F

/-- At the start of the program nothing is marked, and new structures are empty. -/
def World.start : World F := ⟨fun _ => false, fun _ => []⟩

abbrev Run (F : Type) := List (ℕ × Op F)

def World.step (env : Env F) (w : World F) (id : ℕ) (op : Op F) : World F :=
  let o := perform env w.ignore (w.codecs id) op
  ⟨o.ignore, update w.codecs id o.rx⟩

def results (env : Env F) (c : ℕ) : World F → Run F → List ℤ
  | _, [] => []
  | w, (id, op) :: run =>
    (if id = c then [(perform env w.ignore (w.codecs id) op).number] else []) ++ results env c (w.step env id op) run

def ownOps (c : ℕ) : Run F → List (Op F)
  | [] => []
  | (id, op) :: run => if id = c then op :: ownOps c run else ownOps c run

/-! ## Searches that others cannot disturb -/

/-- When the default number is in use and the search finds a slot, the slot has no entry in the
table. -/
def Clear (env : Env F) (ignore : Ignore) (rx : Mapping F) (req : Request F) : Prop :=
  ∀ p ∈ findStaticPayloadType env req.asteriskFormat req.format req.code, ¬ Available rx p →
    ∀ y ∈ findUnusedPayloadInRange rx p 128 (marked env ignore rx), (env.staticPt y).isNone

instance (env : Env F) (ignore : Ignore) (rx : Mapping F) (req : Request F) : Decidable (Clear env ignore rx req) :=
  inferInstanceAs (Decidable (∀ p ∈ _, _))

def Settled (env : Env F) (ignore : Ignore) (rx : Mapping F) : Op F → Prop
  | .code req => findMapped env rx req = none → Clear env ignore rx req
  | .setRxSampleRate code format sampleRate now => Clear env ignore rx ⟨true, format, code, sampleRate, now⟩
  | _ => True

instance (env : Env F) (ignore : Ignore) (rx : Mapping F) : (op : Op F) → Decidable (Settled env ignore rx op)
  | .code _ => inferInstanceAs (Decidable (_ → _))
  | .setRxSampleRate .. => inferInstanceAs (Decidable (Clear ..))
  | .setRx .. | .clear | .copy _ => isTrue trivial

/-- All operations on a structure are settled, when there is no other structure. -/
def SettledRun (env : Env F) : Ignore → Mapping F → List (Op F) → Prop
  | _, _, [] => True
  | ignore, rx, op :: ops =>
    Settled env ignore rx op ∧ SettledRun env (perform env ignore rx op).ignore (perform env ignore rx op).rx ops

instance settledRunDecidable (env : Env F) :
    (ignore : Ignore) → (rx : Mapping F) → (ops : List (Op F)) → Decidable (SettledRun env ignore rx ops)
  | _, _, [] => isTrue trivial
  | _, _, _ :: ops => @instDecidableAnd _ _ _ (settledRunDecidable env _ _ ops)

def alone (env : Env F) : Ignore → Mapping F → List (Op F) → List ℤ
  | _, _, [] => []
  | ignore, rx, op :: ops =>
    (perform env ignore rx op).number :: alone env (perform env ignore rx op).ignore (perform env ignore rx op).rx ops

/-- The list as it is, against the list as it would be: there are more marks, all for slots that
have an entry in the table. -/
structure Between (env : Env F) (own actual : Ignore) : Prop where
  le : ∀ i, own i = true → actual i = true
  table : ∀ i, actual i = true → (env.staticPt i).isSome

variable {env : Env F} {own actual : Ignore} {rx : Mapping F} {req : Request F}

lemma Between.marked (h : Between env own actual) (rx : Mapping F) :
    Between env (marked env own rx) (marked env actual rx) := by
  unfold PayloadCodes.marked
  constructor
  · intro i hi
    split_ifs at hi ⊢
    · exact hi
    · exact h.le i hi
  · intro i hi
    split_ifs at hi
    · exact hi
    · exact h.table i hi

lemma Between.marked_other (h : Between env own actual) (rx : Mapping F) :
    Between env own (PayloadCodes.marked env actual rx) := by
  unfold PayloadCodes.marked
  constructor
  · intro i hi
    split_ifs
    · exact h.table i (h.le i hi)
    · exact h.le i hi
  · intro i hi
    split_ifs at hi
    · exact hi
    · exact h.table i hi

lemma find?_eq_of_le {p q : ℕ → Bool} (hle : ∀ x, q x = true → p x = true) (l : List ℕ)
    (hfnd : ∀ y, l.find? p = some y → q y = true) : l.find? q = l.find? p := by
  induction l with
  | nil => rfl
  | cons x l ih =>
    cases hp : p x with
    | true =>
      have hq := hfnd x (find?_cons_of_pos hp)
      rw [find?_cons_of_pos hp, find?_cons_of_pos hq]
    | false =>
      have hq : q x = false := by
        by_contra hne
        have hpos := hle x (Bool.eq_true_of_not_eq_false hne)
        rw [hp] at hpos
        cases hpos
      rw [find?_cons_of_neg (by simp [hp])] at hfnd
      rw [find?_cons_of_neg (by simp [hq]), find?_cons_of_neg (by simp [hp])]
      exact ih hfnd

lemma findUnusedPayloadInRange_eq (h : Between env own actual) {start stop : ℕ}
    (hfnd : ∀ y, findUnusedPayloadInRange rx start stop own = some y → env.staticPt y = none) :
    findUnusedPayloadInRange rx start stop actual = findUnusedPayloadInRange rx start stop own := by
  refine find?_eq_of_le ?_ _ ?_
  · intro x hx
    simp only [Bool.and_eq_true, Bool.not_eq_true'] at hx ⊢
    refine ⟨?_, hx.2⟩
    by_contra hne
    have hmark := h.le x (Bool.eq_true_of_not_eq_false hne)
    rw [hx.1] at hmark
    cases hmark
  · intro y hy
    have hnone := hfnd y hy
    have hfree := find?_some hy
    simp only [Bool.and_eq_true, Bool.not_eq_true'] at hfree ⊢
    refine ⟨?_, hfree.2⟩
    by_contra hne
    have hent := h.table y (Bool.eq_true_of_not_eq_false hne)
    rw [hnone] at hent
    cases hent

def Outcome.Same (env : Env F) (o o' : Outcome F) : Prop :=
  o'.rx = o.rx ∧ o'.number = o.number ∧ Between env o.ignore o'.ignore

lemma assignPayloadCodeRx_ignore (env : Env F) (ignore : Ignore) (rx : Mapping F) (req : Request F)
    (explicit : Bool) :
    (assignPayloadCodeRx env ignore rx req explicit).ignore = ignore ∨
      (assignPayloadCodeRx env ignore rx req explicit).ignore = marked env ignore rx := by
  unfold assignPayloadCodeRx
  dsimp only
  generalize (if explicit = true then req.code else
    match findStaticPayloadType env req.asteriskFormat req.format req.code with
    | some p => (p : ℤ)
    | none => -1) = payload
  split_ifs
  · exact .inl rfl
  · exact .inr rfl
  · exact .inr rfl
  · right
    split <;> rfl

section

variable (h : Between env own actual)
include h

lemma chooseSlot_eq {payload : ℤ}
    (hfnd : ∀ y, -1 < payload → findUnusedPayloadInRange rx payload.toNat 128 own = some y →
      env.staticPt y = none) :
    chooseSlot env actual rx payload = chooseSlot env own rx payload := by
  unfold chooseSlot
  split_ifs with hpos
  · rw [findUnusedPayloadInRange_eq h fun y hy => hfnd y hpos hy]
  · rfl

lemma assignPayloadCodeRx_same (explicit : Bool) (hclr : explicit = false → Clear env own rx req) :
    (assignPayloadCodeRx env own rx req explicit).Same env (assignPayloadCodeRx env actual rx req explicit) := by
  have hmrk := h.marked rx
  cases explicit with
  | true =>
    simp only [assignPayloadCodeRx, Bool.not_true, Bool.false_eq_true, false_and, if_false, if_true]
    split_ifs <;> exact ⟨rfl, rfl, hmrk⟩
  | false =>
    simp only [assignPayloadCodeRx, Bool.false_eq_true, if_false]
    rcases hstc : findStaticPayloadType env req.asteriskFormat req.format req.code with _ | p
    · have hchoose : chooseSlot env (marked env actual rx) rx (-1) = chooseSlot env (marked env own rx) rx (-1) :=
        chooseSlot_eq hmrk fun y hpos => absurd hpos (by decide)
      dsimp only
      rw [hchoose]
      split_ifs
      · exact ⟨rfl, rfl, h⟩
      · exact ⟨rfl, rfl, hmrk⟩
      · split <;> exact ⟨rfl, rfl, hmrk⟩
    dsimp only
    split_ifs with hearly havailable
    · exact ⟨rfl, rfl, h⟩
    · exact ⟨rfl, rfl, hmrk⟩
    · have hchoose : chooseSlot env (marked env actual rx) rx p = chooseSlot env (marked env own rx) rx p :=
        chooseSlot_eq hmrk fun y _ hy => Option.isNone_iff_eq_none.mp (hclr rfl p hstc havailable y hy)
      rw [hchoose]
      split <;> exact ⟨rfl, rfl, hmrk⟩

lemma perform_same (op : Op F) (hset : Settled env own rx op) :
    (perform env own rx op).Same env (perform env actual rx op) := by
  cases op with
  | code req =>
    simp only [perform, payloadCodeSampleRate]
    cases hmapped : findMapped env rx req with
    | some p => exact ⟨rfl, rfl, h⟩
    | none => exact assignPayloadCodeRx_same h false fun _ => hset hmapped
  | setRx code format now => exact assignPayloadCodeRx_same h true nofun
  | setRxSampleRate code format sampleRate now => exact assignPayloadCodeRx_same h false fun _ => hset
  | clear => exact ⟨rfl, rfl, h⟩
  | copy types => exact ⟨rfl, rfl, h⟩

lemma perform_other (rx : Mapping F) (op : Op F) : Between env own (perform env actual rx op).ignore := by
  have hassign : ∀ req explicit, Between env own (assignPayloadCodeRx env actual rx req explicit).ignore := by
    intro req explicit
    rcases assignPayloadCodeRx_ignore env actual rx req explicit with heq | heq
    · rwa [heq]
    · rw [heq]
      exact h.marked_other rx
  cases op with
  | code req =>
    simp only [perform, payloadCodeSampleRate]
    split
    · exact h
    · exact hassign req false
  | setRx code format now => exact hassign _ true
  | setRxSampleRate code format sampleRate now => exact hassign _ false
  | clear => exact h
  | copy types => exact h

end

/-- What the operations on a structure return is what they would return alone. Induction on the run;
`own` are the marks that would be there. -/
lemma results_eq_alone (c : ℕ) (run : Run F) (w : World F) (own : Ignore) (h : Between env own w.ignore)
    (hset : SettledRun env own (w.codecs c) (ownOps c run)) :
    results env c w run = alone env own (w.codecs c) (ownOps c run) := by
  induction run generalizing w own with
  | nil => rfl
  | cons entry run ih =>
    obtain ⟨id, op⟩ := entry
    by_cases hid : id = c
    · subst hid
      simp only [ownOps] at hset ⊢
      obtain ⟨hop, hrest⟩ := hset
      obtain ⟨hrx, hnum, hmarks⟩ := perform_same h op hop
      have hcods : (w.step env id op).codecs id = (perform env own (w.codecs id) op).rx := by
        rw [← hrx]
        exact update_self ..
      rw [← hcods] at hrest
      have hnext := ih (w.step env id op) _ hmarks hrest
      simp only [results, alone, if_true, singleton_append]
      rw [hnext, hnum, hcods]
    · simp only [ownOps, if_neg hid] at hset ⊢
      have hcods : (w.step env id op).codecs c = w.codecs c := update_of_ne (Ne.symm hid) _ _
      rw [← hcods] at hset ⊢
      have hnext := ih (w.step env id op) own (perform_other h (w.codecs id) op) hset
      simp only [results, if_neg hid]
      exact hnext

/-- **Numbers do not depend on other calls**, when no search takes a slot that has an entry in the
table. -/
theorem results_eq_of_settled (env : Env F) (c : ℕ) (run₁ run₂ : Run F) (hown : ownOps c run₁ = ownOps c run₂)
    (hsettled : SettledRun env (fun _ => false) [] (ownOps c run₁)) :
    results env c .start run₁ = results env c .start run₂ := by
  have hsta : Between env (fun _ => false) (World.start (F := F)).ignore :=
    ⟨fun i hi => absurd hi (by simp), fun i hi => absurd hi (by simp [World.start])⟩
  have h₁ := results_eq_alone c run₁ .start _ hsta hsettled
  rw [hown] at hsettled h₁
  have h₂ := results_eq_alone c run₂ .start _ hsta hsettled
  rw [h₁, h₂]

/-! ## Two calls -/

/-- Formats 1 and 2 have the default numbers 97 and 98; the options are as they are by default. -/
def twoFormats : Env ℕ where
  cmp f g := if f = g then .equal else .notEqual
  staticPt n :=
    if n = 97 then some (payloadTypeAlloc (some 1) 97 0 0)
    else if n = 98 then some (payloadTypeAlloc (some 2) 98 0 0)
    else none
  staticPt_end n h := by rw [if_neg (by omega), if_neg (by omega)]
  useDynamic := true
  ptDynamic := 35

def numberOf (format : ℕ) : Op ℕ := .code ⟨true, some format, 0, 0, 0⟩

/-- The peer has taken 97 and 98; then format 1 gets 99, whatever another call does before. -/
theorem results_eq_of_settled_two :
    results twoFormats 0 .start [(0, .setRx 97 (some 3) 0), (0, .setRx 98 (some 4) 0), (0, numberOf 1)] =
      results twoFormats 0 .start
        [(1, numberOf 2), (0, .setRx 97 (some 3) 0), (1, numberOf 1), (0, .setRx 98 (some 4) 0), (0, numberOf 1)] := by
  exact results_eq_of_settled twoFormats 0 _ _ rfl (by decide +kernel)

/-- The peer has taken 97; then format 1 gets 98, but 99 when another call has used format 2
before. -/
theorem results_not_eq :
    ownOps 0 [(0, .setRx 97 (some 3) 0), (0, numberOf 1)] =
        ownOps 0 [(1, numberOf 2), (1, numberOf 1), (0, .setRx 97 (some 3) 0), (0, numberOf 1)] ∧
      results twoFormats 0 .start [(0, .setRx 97 (some 3) 0), (0, numberOf 1)] = [97, 98] ∧
      results twoFormats 0 .start
        [(1, numberOf 2), (1, numberOf 1), (0, .setRx 97 (some 3) 0), (0, numberOf 1)] = [97, 99] := by
  decide +kernel

end Telephony.Rtp.PayloadCodes
