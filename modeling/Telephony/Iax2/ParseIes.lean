import Telephony.Iax2.Elements
import Telephony.Lib.Loop
import Telephony.Lib.Traced

/-!
# Parsing IAX2 information elements

`iax_parse_ies` walks over the information elements of a datagram that nobody has checked. It keeps
pointers into the datagram, and ends the strings in place: the id of every element is overwritten
with a zero, which terminates the payload before it.
-/

namespace Telephony.Iax2

open Lib List Function
open Traced (within_bind within_read val_read within_pure val_bind)

/-! ## What is kept of the elements -/

/-- Source: `struct iax_ies` -/
inductive StrField where
  | calledNumber | callingNumber | callingAni | callingName | calledContext | username | password
  | codecPrefs | language | dnid | rdnis | challenge | md5Result | rsaResult | cause | devicetype
  | serviceident
  deriving DecidableEq, Repr

/-- The number fields, `capability` and `format` apart.
Source: `struct iax_ies` -/
inductive NumField where
  | callingTon | callingTns | callingPres | callingAni2 | version | adsicpe | authmethods | encmethods
  | refresh | dpstatus | callno | causecode | iaxUnknown | msgcount | transferid | datetime | firmwarever
  | fwdesc | provver | samprate | rrJitter | rrLoss | rrPkts | rrDelay | rrDropped | rrOoo
  deriving DecidableEq, Repr

/-- Source: `struct iax_ies` -/
inductive FlagField where
  | autoanswer | musiconhold | provverpres | calltoken
  deriving DecidableEq, Repr

/-- Source: `struct iax_ies` (`fwdata`, `fwdatalen`, `enckey`, `enckeylen`) -/
inductive RawField where
  | fwdata | enckey
  deriving DecidableEq, Repr

structure Ies where
  str : StrField → Option ℕ
  num : NumField → ℤ
  flag : FlagField → Bool
  raw : RawField → Option (ℕ × ℕ)
  capability : ℕ
  format : ℕ
  apparentAddr : List UInt8
  apparentAddrLen : ℕ
  vars : List (List UInt8 × List UInt8)
  osptokenblock : ℕ → Option ℕ
  ospblocklength : ℕ → UInt32
  calltokendata : Option ℕ

/-- Source: `iax_parse_ies` (`memset (ies, 0, …)` and the assignments behind it) -/
def Ies.start : Ies where
  str := fun _ => none
  num
    | .msgcount | .firmwarever | .callingTon | .callingTns | .callingPres | .callingAni2 => -1
    | .samprate => 1
    | _ => 0
  flag := fun _ => false
  raw := fun _ => none
  capability := 0
  format := 0
  apparentAddr := []
  apparentAddrLen := 0
  vars := []
  osptokenblock := fun _ => none
  ospblocklength := fun _ => 0
  calltokendata := none

/-- Source: `iax_parse_ies` (`switch (ie)`) -/
inductive Kind where
  | string (f : StrField)
  | number (f : NumField) (size : ℕ)
  | capability
  | capability2
  | format
  | format2
  | apparentAddr
  | flag (f : FlagField)
  | raw (f : RawField)
  | provver
  | var
  | osptoken
  | calltoken
  | unknown
  deriving DecidableEq, Repr

/-- Source: `iax_parse_ies` (`switch (ie)`), `IAX_IE_CALLED_NUMBER` up to `IAX_IE_CALLINGANI2` -/
def kind (ie : UInt8) : Kind :=
  match ie.toNat with
  | 1 => .string .calledNumber
  | 2 => .string .callingNumber
  | 3 => .string .callingAni
  | 4 => .string .callingName
  | 5 => .string .calledContext
  | 6 => .string .username
  | 7 => .string .password
  | 8 => .capability
  | 9 => .format
  | 10 => .string .language
  | 11 => .number .version 2
  | 12 => .number .adsicpe 2
  | 13 => .string .dnid
  | 14 => .number .authmethods 2
  | 15 => .string .challenge
  | 16 => .string .md5Result
  | 17 => .string .rsaResult
  | 18 => .apparentAddr
  | 19 => .number .refresh 2
  | 20 => .number .dpstatus 2
  | 21 => .number .callno 2
  | 22 => .string .cause
  | 23 => .number .iaxUnknown 1
  | 24 => .number .msgcount 2
  | 25 => .flag .autoanswer
  | 26 => .flag .musiconhold
  | 27 => .number .transferid 4
  | 28 => .string .rdnis
  | 31 => .number .datetime 4
  | 32 => .string .devicetype
  | 33 => .string .serviceident
  | 34 => .number .firmwarever 2
  | 35 => .number .fwdesc 4
  | 36 => .raw .fwdata
  | 37 => .provver
  | 38 => .number .callingPres 1
  | 39 => .number .callingTon 1
  | 40 => .number .callingTns 2
  | 41 => .number .samprate 2
  | 42 => .number .causecode 1
  | 43 => .number .encmethods 2
  | 44 => .raw .enckey
  | 45 => .string .codecPrefs
  | 46 => .number .rrJitter 4
  | 47 => .number .rrLoss 4
  | 48 => .number .rrPkts 4
  | 49 => .number .rrDelay 2
  | 50 => .number .rrDropped 4
  | 51 => .number .rrOoo 4
  | 52 => .var
  | 53 => .osptoken
  | 54 => .calltoken
  | 55 => .capability2
  | 56 => .format2
  | 57 => .number .callingAni2 4
  | _ => .unknown

namespace Ies

/-- Source: `ies->called_number = (char *) data + 2` and the like -/
def setStr (ies : Ies) (f : StrField) (p : ℕ) : Ies := { ies with str := update ies.str f (some p) }

/-- A number is stored in its field. `calling_ani2` is an `int` that gets 32 bits.
Source: `ies->version = …` and the like -/
def setNum (ies : Ies) (f : NumField) (v : ℕ) : Ies :=
  let stored : ℤ := if f = .callingAni2 ∧ 2 ^ 31 ≤ v then (v : ℤ) - 2 ^ 32 else v
  { ies with num := update ies.num f stored }

/-- Source: `ies->autoanswer = 1` and the like -/
def setFlag (ies : Ies) (f : FlagField) : Ies := { ies with flag := update ies.flag f true }

/-- Source: `ies->fwdata = data + 2`, `ies->fwdatalen = len` and the like -/
def setRaw (ies : Ies) (f : RawField) (p len : ℕ) : Ies :=
  { ies with raw := update ies.raw f (some (p, len)) }

/-- Source: `IAX_IE_OSPTOKEN` -/
def setOsp (ies : Ies) (count p len : ℕ) : Ies :=
  { ies with
    osptokenblock := update ies.osptokenblock count (some p)
    ospblocklength := update ies.ospblocklength count (UInt32.ofNat len - 1) }

/-- Source: `IAX_IE_VARIABLE` (existing variable) -/
def appendVar (name value : List UInt8) : List (List UInt8 × List UInt8) → List (List UInt8 × List UInt8)
  | [] => []
  | (n, v) :: vars => if n = name then (n, v ++ value) :: vars else (n, v) :: appendVar name value vars

/-- Source: `IAX_IE_VARIABLE` -/
def assignVar (ies : Ies) (text : List UInt8) : Ies :=
  let name := text.takeWhile (· ≠ 61)
  let value := (text.dropWhile (· ≠ 61)).tail
  { ies with
    vars := if name ∈ ies.vars.map Prod.fst then appendVar name value ies.vars else (name, value) :: ies.vars }

end Ies

/-! ## Reading the value of an element -/

structure Copy where
  size : ℕ
  count : ℕ
  deriving DecidableEq, Repr

/-- The characters that `ast_copy_string` copies. The character is looked at before the space that
is left, so one more byte is read once the space is used up. -/
def copyString (byte : ℕ → UInt8) (src : ℕ) : ℕ → Traced ℕ (List UInt8)
  | 0 => do
    let _ ← Traced.read byte src
    pure []
  | size + 1 => do
    let c ← Traced.read byte src
    if c = 0 then pure []
    else do
      let cs ← copyString byte (src + 1) size
      pure (c :: cs)

/-- The string in the destination: if the space was used up, the last character is overwritten by
the terminating zero.
Source: `ast_copy_string` (`if (!sz) dst--`) -/
def copiedString (size : ℕ) (chars : List UInt8) : List UInt8 :=
  if chars.length = size then chars.dropLast else chars

/-- Source: `ntohs`, `ntohl`, `ntohll` -/
def readNumber (byte : ℕ → UInt8) (start size : ℕ) : Traced ℕ ℕ := do
  let bytes ← Traced.readRange byte start size
  pure (bytes.foldl (fun v b => v * 256 + b.toNat) 0)

/-- `sizeof (struct ast_sockaddr)`: a `struct sockaddr_storage` of 128 bytes and a `socklen_t`,
padded to the alignment of the former.
Source: `struct ast_sockaddr` -/
def sockaddrSize : ℕ := 136

/-- Source: `iax_parse_ies` -/
def tmpSize : ℕ := 256

def maxOspBlocks : ℕ := 4

/-- A capability or format with a version in front: the version is read before the length is looked
at.
Source: `IAX_IE_CAPABILITY2`, `IAX_IE_FORMAT2` -/
def versionedNumber (byte : ℕ → UInt8) (data len : ℕ) : Traced ℕ (Option ℕ) := do
  let version ← Traced.read byte (data + 2)
  if version = 0 then
    if len ≠ 9 then pure none
    else do
      let v ← readNumber byte (data + 3) 8
      pure (some v)
  else pure none

/-- Source: `iax_parse_ies` (`switch (ie)`) -/
def elementValue (byte : ℕ → UInt8) (data len : ℕ) (ies : Ies) : Kind → Traced ℕ (Ies × List Copy)
  | .string f => pure (ies.setStr f (data + 2), [])
  | .number f size =>
    if len ≠ size then pure (ies, [])
    else do
      let v ← readNumber byte (data + 2) size
      pure (ies.setNum f v, [])
  | .capability =>
    if len ≠ 4 then pure (ies, [])
    else if ies.capability = 0 then do
      let v ← readNumber byte (data + 2) 4
      pure ({ ies with capability := v }, [])
    else pure (ies, [])
  | .capability2 => do
    let v ← versionedNumber byte data len
    pure ({ ies with capability := v.getD ies.capability }, [])
  | .format =>
    if len ≠ 4 then pure (ies, [])
    else if ies.format = 0 then do
      let v ← readNumber byte (data + 2) 4
      pure ({ ies with format := v }, [])
    else pure (ies, [])
  | .format2 => do
    let v ← versionedNumber byte data len
    pure ({ ies with format := v.getD ies.format }, [])
  | .apparentAddr => do
    let bytes ← Traced.readRange byte (data + 2) len
    pure ({ ies with apparentAddr := bytes, apparentAddrLen := len }, [⟨sockaddrSize, len⟩])
  | .flag f => pure (ies.setFlag f, [])
  | .raw f => pure (ies.setRaw f (data + 2) len, [])
  | .provver =>
    if len ≠ 4 then pure (ies, [])
    else do
      let v ← readNumber byte (data + 2) 4
      pure ((ies.setFlag .provverpres).setNum .provver v, [])
  | .var => do
    let chars ← copyString byte (data + 2) (len + 1)
    pure (ies.assignVar (copiedString (len + 1) chars), [⟨tmpSize, min (chars.length + 1) (len + 1)⟩])
  | .osptoken => do
    let count ← Traced.read byte (data + 2)
    if count.toNat < maxOspBlocks then pure (ies.setOsp count.toNat (data + 3) len, [])
    else pure (ies, [])
  | .calltoken =>
    pure ({ ies.setFlag .calltoken with
      calltokendata := if len = 0 then ies.calltokendata else some (data + 2) }, [])
  | .unknown => pure (ies, [])

/-! ## The loop -/

/-- What was done with one element: where it starts, its declared length, the bytes that were read
for its value, and the copies. -/
structure Visit where
  data : ℕ
  len : ℕ
  reads : List ℕ
  copies : List Copy
  deriving DecidableEq, Repr

def Visit.Inside (v : Visit) : Prop :=
  (∀ i ∈ v.reads, v.data + 2 ≤ i ∧ i < v.data + 2 + v.len) ∧ ∀ c ∈ v.copies, c.count ≤ c.size

/-- The variables of the loop, with what was done so far. `mem` is the datagram and what lies behind
it.
Source: `iax_parse_ies` -/
structure ParseState where
  mem : List UInt8
  data : ℕ
  datalen : ℕ
  ies : Ies
  visits : List Visit

structure Parsed where
  ok : Bool
  mem : List UInt8
  ies : Ies
  visits : List Visit

/-- The byte at an offset. Of what lies behind the memory that is given nothing is known; a zero
stands for it. -/
def byteAt (mem : List UInt8) (i : ℕ) : UInt8 := mem.getD i 0

/-- Source: `iax_parse_ies` -/
def parseStep (s : ParseState) : Option (ParseState ⊕ Parsed) :=
  if s.datalen < 2 then
    some (.inr ⟨decide (s.datalen = 0), s.mem.set s.data 0, s.ies, s.visits⟩)
  else
    let ie := byteAt s.mem s.data
    let len := (byteAt s.mem (s.data + 1)).toNat
    if len > s.datalen - 2 then some (.inr ⟨false, s.mem, s.ies, s.visits⟩)
    else
      let out := elementValue (byteAt s.mem) s.data len s.ies (kind ie)
      some (.inl
        { mem := s.mem.set s.data 0
          data := s.data + (len + 2)
          datalen := s.datalen - (len + 2)
          ies := out.val.1
          visits := s.visits ++ [⟨s.data, len, out.reads, out.val.2⟩] })

def iaxParseIes (mem : List UInt8) (datalen fuel : ℕ) : Option Parsed :=
  iterate parseStep fuel ⟨mem, 0, datalen, Ies.start, []⟩

/-! ## One element -/

/-- A version or a block number is there, an address is no longer than its field, and the text of
a variable has a zero that ends it. -/
def HarmlessValue (payload : List UInt8) : Kind → Prop
  | .capability2 | .format2 | .osptoken => payload ≠ []
  | .apparentAddr => payload.length ≤ sockaddrSize
  | .var => 0 ∈ payload
  | _ => True

instance (payload : List UInt8) (k : Kind) : Decidable (HarmlessValue payload k) := by
  cases k <;> unfold HarmlessValue <;> infer_instance

def Harmless (e : Element) : Prop := HarmlessValue e.payload (kind e.ie)

instance (e : Element) : Decidable (Harmless e) := inferInstanceAs (Decidable (HarmlessValue _ _))

section Value

variable {byte : ℕ → UInt8} {data len : ℕ}

/-- The reads of a copy of a string that is to have `len` characters stay inside just if there is a
zero among them. Induction on the characters. -/
lemma copyString_within_iff (lo src len : ℕ) (hlo : lo ≤ src) :
    (copyString byte src (len + 1)).Within (fun i => lo ≤ i ∧ i < src + len) ↔ ∃ i < len, byte (src + i) = 0 := by
  induction len generalizing src with
  | zero =>
    simp only [copyString, within_bind, within_read]
    constructor <;> omega
  | succ len ih =>
    rw [copyString]
    simp only [within_bind, within_read, val_read]
    by_cases hzero : byte src = 0
    · rw [if_pos hzero]
      simp only [within_pure, and_true]
      constructor
      · intro _
        exact ⟨0, by omega, hzero⟩
      · intro _
        exact ⟨hlo, by omega⟩
    rw [if_neg hzero]
    have hrest := ih (src + 1) (by omega)
    rw [show src + 1 + len = src + (len + 1) by omega] at hrest
    simp only [within_bind, within_pure, and_true, hrest]
    constructor
    · rintro ⟨-, i, hi, hbyte⟩
      exact ⟨i + 1, by omega, by rw [show src + (i + 1) = src + 1 + i by omega]; exact hbyte⟩
    · rintro ⟨i, hi, hbyte⟩
      refine ⟨⟨hlo, by omega⟩, i - 1, ?_⟩
      have hpos : i ≠ 0 := by
        rintro rfl
        exact hzero hbyte
      exact ⟨by omega, by rw [show src + 1 + (i - 1) = src + i by omega]; exact hbyte⟩

lemma readNumber_within {p : ℕ → Prop} (start size : ℕ)
    (h : ∀ k, start ≤ k → k < start + size → p k) : (readNumber byte start size).Within p := by
  simp only [readNumber, within_bind, Traced.within_readRange, within_pure, and_true]
  exact h

lemma versionedNumber_within_iff :
    (versionedNumber byte data len).Within (fun i => data + 2 ≤ i ∧ i < data + 2 + len) ↔ 0 < len := by
  simp only [versionedNumber, within_bind, within_read]
  constructor
  · omega
  · intro hlen
    refine ⟨⟨by omega, by omega⟩, ?_⟩
    split_ifs with hver hnine
    · exact within_pure _
    · simp only [within_bind, within_pure, and_true]
      exact readNumber_within _ _ fun k hle hlt => ⟨by omega, by omega⟩
    · exact within_pure _

/-- The value of an element is read inside it, and copied inside what it is copied to. -/
def ValueInside (data len : ℕ) (out : Traced ℕ (Ies × List Copy)) : Prop :=
  out.Within (fun i => data + 2 ≤ i ∧ i < data + 2 + len) ∧ ∀ c ∈ out.val.2, c.count ≤ c.size

lemma valueInside_pure (v : Ies) : ValueInside data len (pure (v, [])) := ⟨within_pure _, nofun⟩

lemma checkedNumber_inside (size : ℕ) (keep : Ies) (store : ℕ → Ies) (guard : Prop) [Decidable guard] :
    ValueInside data len
      (if len ≠ size then pure (keep, [])
      else if guard then do
        let v ← readNumber byte (data + 2) size
        pure (store v, [])
      else pure (keep, [])) := by
  split_ifs with hsize hguard
  · exact valueInside_pure _
  · refine ⟨?_, nofun⟩
    simp only [within_bind, within_pure, and_true]
    exact readNumber_within _ _ fun k hle hlt => ⟨by omega, by omega⟩
  · exact valueInside_pure _

lemma versionedNumber_inside_iff (store : Option ℕ → Ies) :
    ValueInside data len (do
      let v ← versionedNumber byte data len
      pure (store v, [])) ↔ 0 < len := by
  simp only [ValueInside, within_bind, versionedNumber_within_iff, within_pure, and_true]
  exact and_iff_left fun _ h => absurd h not_mem_nil

lemma elementValue_inside_iff (ies : Ies) (payload : List UInt8) (k : Kind)
    (hbyte : ∀ i (h : i < payload.length), byte (data + 2 + i) = payload[i])
    (hlen : payload.length ≤ 255) :
    Visit.Inside ⟨data, payload.length, (elementValue byte data payload.length ies k).reads,
        (elementValue byte data payload.length ies k).val.2⟩ ↔
      HarmlessValue payload k := by
  change ValueInside data payload.length (elementValue byte data payload.length ies k) ↔ _
  cases k with
  | string f | flag f | raw f | calltoken | unknown => exact iff_of_true (valueInside_pure _) trivial
  | number f size =>
    exact iff_of_true (checkedNumber_inside size ies (ies.setNum f) True) trivial
  | provver =>
    exact iff_of_true (checkedNumber_inside 4 ies ((ies.setFlag .provverpres).setNum .provver) True) trivial
  | capability =>
    exact iff_of_true
      (checkedNumber_inside 4 ies (fun v => { ies with capability := v }) (ies.capability = 0)) trivial
  | format =>
    exact iff_of_true (checkedNumber_inside 4 ies (fun v => { ies with format := v }) (ies.format = 0)) trivial
  | capability2 | format2 => exact (versionedNumber_inside_iff _).trans length_pos_iff
  | apparentAddr =>
    simp only [ValueInside, elementValue, within_bind, Traced.within_readRange, within_pure, and_true]
    constructor
    · rintro ⟨-, hcopy⟩
      exact hcopy _ (mem_singleton_self _)
    · intro hfit
      refine ⟨fun k hle hlt => ⟨hle, hlt⟩, fun c hc => ?_⟩
      rwa [mem_singleton.mp hc]
  | osptoken =>
    simp only [ValueInside, elementValue, HarmlessValue, within_bind, within_read]
    rw [← length_pos_iff]
    constructor
    · omega
    · intro hpos
      refine ⟨⟨⟨by omega, by omega⟩, ?_⟩, ?_⟩
      · split_ifs <;> exact within_pure _
      · intro c hc
        rw [val_bind] at hc
        split_ifs at hc <;> cases hc
  | var =>
    simp only [ValueInside, elementValue, HarmlessValue, within_bind, within_pure, and_true,
      copyString_within_iff (data + 2) (data + 2) payload.length le_rfl]
    constructor
    · rintro ⟨⟨i, hi, hzero⟩, -⟩
      rw [hbyte i hi] at hzero
      exact hzero ▸ getElem_mem hi
    · intro hmem
      obtain ⟨i, hi, hzero⟩ := getElem_of_mem hmem
      refine ⟨⟨i, hi, by rw [hbyte i hi, hzero]⟩, fun c hc => ?_⟩
      rw [mem_singleton.mp hc]
      have hcnt : min ((copyString byte (data + 2) (payload.length + 1)).val.length + 1)
          (payload.length + 1) ≤ payload.length + 1 := Nat.min_le_right _ _
      exact Nat.le_trans hcnt (by change payload.length + 1 ≤ 256; omega)

lemma elementValue_str (ies : Ies) (k : Kind) (f : StrField) :
    (elementValue byte data len ies k).val.1.str f = if k = .string f then some (data + 2) else ies.str f := by
  cases k with
  | string g =>
    change update ies.str g (some (data + 2)) f = _
    by_cases hfg : f = g
    · subst hfg
      simp
    rw [update_of_ne hfg, if_neg]
    rintro h
    exact hfg (Kind.string.inj h).symm
  | osptoken =>
    rw [if_neg (by simp), elementValue, val_bind]
    split_ifs <;> rfl
  | number g size | capability | format | provver =>
    rw [if_neg (by simp), elementValue]
    split_ifs <;> rfl
  | capability2 | format2 | apparentAddr | flag | raw | var | calltoken | unknown =>
    rfl

lemma elementValue_osp (ies : Ies) (k : Kind) (c : ℕ) (hc : c < maxOspBlocks) :
    ((elementValue byte data len ies k).val.1.osptokenblock c,
        (elementValue byte data len ies k).val.1.ospblocklength c) =
      if k = .osptoken ∧ (byte (data + 2)).toNat = c then
        (some (data + 3), UInt32.ofNat len - 1)
      else (ies.osptokenblock c, ies.ospblocklength c) := by
  cases k with
  | osptoken =>
    simp only [elementValue, val_bind, val_read, true_and]
    by_cases hcnt : (byte (data + 2)).toNat = c
    · rw [if_pos (by omega), hcnt]
      change (update _ c _ c, update _ c _ c) = _
      simp
    split_ifs
    · change (update _ _ _ c, update _ _ _ c) = _
      rw [update_of_ne (Ne.symm hcnt), update_of_ne (Ne.symm hcnt)]
    · rfl
  | number g size | capability | format | provver =>
    rw [if_neg (by simp), elementValue]
    split_ifs <;> rfl
  | string | capability2 | format2 | apparentAddr | flag | raw | var | calltoken | unknown =>
    rfl

end Value

/-! ## Strings that are ended in place -/

/-- Source: `iax_parse_ies` (`data[0] = 0`) -/
def terminated (es : List Element) : List UInt8 :=
  es.flatMap fun e => 0 :: UInt8.ofNat e.payload.length :: e.payload

@[simp]
lemma terminated_cons (e : Element) (es : List Element) :
    terminated (e :: es) = 0 :: UInt8.ofNat e.payload.length :: (e.payload ++ terminated es) := rfl

lemma terminated_append (es fs : List Element) : terminated (es ++ fs) = terminated es ++ terminated fs :=
  flatMap_append

@[simp]
lemma length_terminated (es : List Element) : (terminated es).length = (encodeAll es).length := by
  induction es with
  | nil => rfl
  | cons e es ih =>
    simp only [terminated_cons, encodeAll_cons, length_cons, length_append, Element.length_encode]
    omega

def IsCString (mem : List UInt8) (q : ℕ) (text : List UInt8) : Prop :=
  ∃ rest, mem.drop q = text ++ 0 :: rest

lemma terminated_head (es : List Element) (rest : List UInt8) : ∃ more, terminated es ++ 0 :: rest = 0 :: more := by
  cases es with
  | nil => exact ⟨rest, rfl⟩
  | cons e es => exact ⟨_, rfl⟩

lemma cut_at_zero (text rest : List UInt8) : ∃ more, text ++ 0 :: rest = text.takeWhile (· ≠ 0) ++ 0 :: more := by
  induction text with
  | nil => exact ⟨rest, rfl⟩
  | cons c text ih =>
    by_cases hc : c = 0
    · exact ⟨text ++ 0 :: rest, by simp [hc]⟩
    · obtain ⟨more, hmore⟩ := ih
      exact ⟨more, by simp [hc, hmore]⟩

lemma terminated_isCString (pre : List Element) (e : Element) (post : List Element)
    (rest : List UInt8) :
    IsCString (terminated (pre ++ e :: post) ++ 0 :: rest) ((encodeAll pre).length + 2)
      (e.payload.takeWhile (· ≠ 0)) := by
  obtain ⟨more, hmore⟩ := terminated_head post rest
  obtain ⟨last, hlast⟩ := cut_at_zero e.payload more
  refine ⟨last, ?_⟩
  rw [terminated_append, append_assoc, drop_append, length_terminated,
    drop_of_length_le (by simp), show (encodeAll pre).length + 2 - (encodeAll pre).length = 2 by omega,
    terminated_cons]
  simp only [nil_append, cons_append, drop_succ_cons, drop_zero, append_assoc]
  rw [hmore, hlast]

/-! ## What the parser is to keep -/

def lastWith (p : Element → Bool) (es : List Element) : Option Element := es.reverse.find? p

lemma lastWith_append (p : Element → Bool) (es : List Element) (e : Element) :
    lastWith p (es ++ [e]) = if p e then some e else lastWith p es := by
  rw [lastWith, reverse_append, reverse_singleton, singleton_append, find?_cons]
  cases p e <;> rfl

def ofField (f : StrField) (e : Element) : Bool := kind e.ie = .string f

def ofBlock (c : ℕ) (e : Element) : Bool := kind e.ie = .osptoken ∧ e.payload.head?.map UInt8.toNat = some c

/-- A string field points to the payload of the last element of its kind, cut at its first zero, and
a block length is that of the last element with the block number, minus one. -/
structure Parsed.Keeps (r : Parsed) (es : List Element) : Prop where
  strings : ∀ f,
    (lastWith (ofField f) es = none → r.ies.str f = none) ∧
      ∀ e, lastWith (ofField f) es = some e →
        ∃ q, r.ies.str f = some q ∧ IsCString r.mem q (e.payload.takeWhile (· ≠ 0))
  blocks : ∀ c < maxOspBlocks,
    (lastWith (ofBlock c) es = none → r.ies.osptokenblock c = none) ∧
      ∀ e, lastWith (ofBlock c) es = some e → ((r.ies.ospblocklength c).toNat : ℤ) = (e.payload.length : ℤ) - 1

/-- Reads and copies stay within bounds, and if 0 is returned, the buffer is a sequence of elements,
and what is to be kept of them is kept. -/
structure Parsed.Safe (r : Parsed) (buf : List UInt8) : Prop where
  inside : ∀ v ∈ r.visits, v.Inside
  returned : r.ok = true → ∃ es, walkIes buf = some es ∧ r.Keeps es

/-! ## The run of the parser -/

structure Progress (mem : List UInt8) (n : ℕ) (s : ParseState) (done : List Element)
    (rest : List UInt8) : Prop where
  mem_eq : mem = encodeAll done ++ rest
  current : s.mem = terminated done ++ rest
  data_eq : s.data = (encodeAll done).length
  room : s.datalen < rest.length
  split : splitIes (mem.take n) =
    (done ++ (splitIes (rest.take s.datalen)).1, (splitIes (rest.take s.datalen)).2)
  inside : (∀ v ∈ s.visits, v.Inside) ↔ ∀ e ∈ done, Harmless e
  strings : ∀ f, (lastWith (ofField f) done = none → s.ies.str f = none) ∧
    ∀ e, lastWith (ofField f) done = some e →
      ∃ pre post, done = pre ++ e :: post ∧ s.ies.str f = some ((encodeAll pre).length + 2)
  blocks : (∀ e ∈ done, Harmless e) → ∀ c < maxOspBlocks,
    (lastWith (ofBlock c) done = none → s.ies.osptokenblock c = none) ∧
      ∀ e, lastWith (ofBlock c) done = some e → ((s.ies.ospblocklength c).toNat : ℤ) = (e.payload.length : ℤ) - 1

lemma progress_start (mem : List UInt8) (n : ℕ) (hn : n < mem.length) :
    Progress mem n ⟨mem, 0, n, Ies.start, []⟩ [] mem where
  mem_eq := rfl
  current := rfl
  data_eq := rfl
  room := hn
  split := rfl
  inside := by simp
  strings := fun f => ⟨fun _ => rfl, fun e he => by simp [lastWith] at he⟩
  blocks := fun _ c _ => ⟨fun _ => rfl, fun e he => by simp [lastWith] at he⟩

lemma byteAt_terminated (done : List Element) (rest : List UInt8) (i : ℕ) :
    byteAt (terminated done ++ rest) ((encodeAll done).length + i) = byteAt rest i := by
  rw [byteAt, byteAt, getD_eq_getElem?_getD, getElem?_append_right (by simp)]
  simp

lemma Progress.finish {mem : List UInt8} {n : ℕ} {s : ParseState} {done : List Element}
    {rest : List UInt8} (h : Progress mem n s done rest)
    (hend : (splitIes (rest.take s.datalen)).1 = []) (r : Parsed) (hies : r.ies = s.ies)
    (hvisits : r.visits = s.visits)
    (hok : r.ok = true → s.datalen = 0 ∧ ∃ tail, r.mem = terminated done ++ 0 :: tail) :
    r.Safe (mem.take n) ↔ ∀ e ∈ visitedIes (mem.take n), Harmless e := by
  rw [visitedIes, h.split, hend, append_nil]
  constructor
  · intro hsafe
    exact h.inside.mp (hvisits ▸ hsafe.inside)
  · intro hharm
    refine ⟨hvisits ▸ h.inside.mpr hharm, fun hreturn => ?_⟩
    obtain ⟨hzero, tail, htail⟩ := hok hreturn
    refine ⟨done, ?_, ?_, ?_⟩
    · rw [walkIes_eq_some, h.split, hend, append_nil, hzero, take_zero, splitIes_nil]
    · intro f
      rw [hies, htail]
      refine ⟨(h.strings f).1, fun e he => ?_⟩
      obtain ⟨pre, post, hdone, hstr⟩ := (h.strings f).2 e he
      refine ⟨_, hstr, ?_⟩
      rw [hdone]
      exact terminated_isCString pre e post tail
    · rw [hies]
      exact h.blocks hharm

section Round

variable {mem more : List UInt8} {n : ℕ} {s : ParseState} {done : List Element} {rest : List UInt8}
  {e : Element}

section

variable (h : Progress mem n s done (e.encode ++ rest))
include h

lemma Progress.inside_next (hlen : e.payload.length ≤ 255) :
    let out := elementValue (byteAt s.mem) s.data e.payload.length s.ies (kind e.ie)
    Visit.Inside ⟨s.data, e.payload.length, out.reads, out.val.2⟩ ↔ Harmless e := by
  refine elementValue_inside_iff s.ies e.payload (kind e.ie) (fun i hi => ?_) hlen
  rw [h.current, h.data_eq, show (encodeAll done).length + 2 + i = (encodeAll done).length + (i + 2) by omega,
    byteAt_terminated, byteAt, Element.encode]
  simp only [cons_append, getD_cons_succ]
  rw [getD_eq_getElem?_getD, getElem?_append_left hi, getElem?_eq_getElem hi, Option.getD_some]

lemma Progress.strings_next (f : StrField) :
    let ies := (elementValue (byteAt s.mem) s.data e.payload.length s.ies (kind e.ie)).val.1
    (lastWith (ofField f) (done ++ [e]) = none → ies.str f = none) ∧
      ∀ e', lastWith (ofField f) (done ++ [e]) = some e' →
        ∃ pre post, done ++ [e] = pre ++ e' :: post ∧ ies.str f = some ((encodeAll pre).length + 2) := by
  intro ies
  simp only [ies, elementValue_str, lastWith_append]
  by_cases hkind : kind e.ie = .string f
  · have hof : ofField f e = true := decide_eq_true hkind
    rw [if_pos hof, if_pos hkind]
    refine ⟨fun hnone => by simp at hnone, fun e' he' => ?_⟩
    have hsame : e = e' := Option.some.inj he'
    exact ⟨done, [], by rw [hsame], by rw [h.data_eq]⟩
  have hof : ¬ ofField f e = true := fun hof => hkind (of_decide_eq_true hof)
  rw [if_neg hof, if_neg hkind]
  refine ⟨(h.strings f).1, fun e' he' => ?_⟩
  obtain ⟨pre, post, hdone, hstr⟩ := (h.strings f).2 e' he'
  exact ⟨pre, post ++ [e], by rw [hdone]; simp, hstr⟩

lemma Progress.blocks_next (hlen : e.payload.length ≤ 255)
    (hharm : ∀ e' ∈ done ++ [e], Harmless e') (c : ℕ) (hc : c < maxOspBlocks) :
    let ies := (elementValue (byteAt s.mem) s.data e.payload.length s.ies (kind e.ie)).val.1
    (lastWith (ofBlock c) (done ++ [e]) = none → ies.osptokenblock c = none) ∧
      ∀ e', lastWith (ofBlock c) (done ++ [e]) = some e' →
        ((ies.ospblocklength c).toNat : ℤ) = (e'.payload.length : ℤ) - 1 := by
  intro ies
  have hboth := @elementValue_osp (byteAt s.mem) s.data e.payload.length s.ies (kind e.ie) c hc
  have hdone := h.blocks (fun e' he' => hharm e' (mem_append_left _ he')) c hc
  have hthis : Harmless e := hharm e (by simp)
  rw [lastWith_append]
  by_cases hkind : kind e.ie = .osptoken
  · -- a block number is there, and it is the first byte of the payload
    have hne : e.payload ≠ [] := by
      rwa [Harmless, hkind] at hthis
    obtain ⟨b, payload, hpay⟩ := exists_cons_of_ne_nil hne
    have hbyte : byteAt s.mem (s.data + 2) = b := by
      rw [h.current, h.data_eq, byteAt_terminated, Element.encode, hpay]
      rfl
    have hof : ofBlock c e = decide (b.toNat = c) := by simp [ofBlock, hkind, hpay]
    rw [hbyte] at hboth
    by_cases hcnt : b.toNat = c
    · rw [if_pos ⟨hkind, hcnt⟩, Prod.mk.injEq] at hboth
      rw [hof, decide_eq_true hcnt]
      refine ⟨fun hnone => by simp at hnone, fun e' he' => ?_⟩
      have hsame : e = e' := Option.some.inj he'
      rw [← hsame, hboth.2]
      have hone : (1 : UInt32) ≤ UInt32.ofNat e.payload.length := by
        rw [UInt32.le_iff_toNat_le, UInt32.toNat_ofNat']
        have hpos := length_pos_iff.mpr hne
        change 1 ≤ _
        omega
      rw [UInt32.toNat_sub_of_le _ _ hone]
      change ((e.payload.length % 2 ^ 32 - 1 : ℕ) : ℤ) = _
      have hpos := length_pos_iff.mpr hne
      omega
    · rw [if_neg (fun hand => hcnt hand.2), Prod.mk.injEq] at hboth
      rw [hof, decide_eq_false hcnt, hboth.1, hboth.2]
      simpa using hdone
  · have hof : ofBlock c e = false := by simp [ofBlock, hkind]
    rw [if_neg (fun hand => hkind hand.1), Prod.mk.injEq] at hboth
    rw [hof, hboth.1, hboth.2]
    simpa using hdone

end

lemma Progress.round {ie len : UInt8} (h : Progress mem n s done (ie :: len :: more)) (htwo : 2 ≤ s.datalen)
    (hlen : len.toNat ≤ s.datalen - 2) :
    let out := elementValue (byteAt s.mem) s.data len.toNat s.ies (kind ie)
    Progress mem n
      { mem := s.mem.set s.data 0
        data := s.data + (len.toNat + 2)
        datalen := s.datalen - (len.toNat + 2)
        ies := out.val.1
        visits := s.visits ++ [⟨s.data, len.toNat, out.reads, out.val.2⟩] }
      (done ++ [⟨ie, more.take len.toNat⟩]) (more.drop len.toNat) := by
  have hroom := h.room
  simp only [length_cons] at hroom
  obtain ⟨e, he⟩ : ∃ e : Element, e = ⟨ie, more.take len.toNat⟩ := ⟨_, rfl⟩
  have hie : ie = e.ie := by rw [he]
  have hpay : len.toNat = e.payload.length := by
    rw [he]
    simp only [length_take]
    omega
  have hencd : ie :: len :: more = e.encode ++ more.drop len.toNat := by
    rw [Element.encode, ← hpay, he]
    simp
  have hbyte := len.toNat_lt
  have hsta : s.mem.set s.data 0 = terminated (done ++ [e]) ++ more.drop len.toNat := by
    rw [h.current, h.data_eq, set_append_right _ _ (by simp), length_terminated, hencd, Element.encode]
    simp [terminated]
  rw [← he]
  rw [hencd] at h
  obtain ⟨rest, hrest⟩ : ∃ rest, rest = more.drop len.toNat := ⟨_, rfl⟩
  have hleng : rest.length = more.length - len.toNat := by rw [hrest, length_drop]
  rw [← hrest] at h hsta ⊢
  rw [hpay] at hleng hbyte hlen ⊢
  have htake : (e.encode ++ rest).take s.datalen = e.encode ++ rest.take (s.datalen - (e.payload.length + 2)) := by
    rw [take_append, take_of_length_le (by rw [Element.length_encode]; omega), Element.length_encode]
  rw [hie]
  refine ⟨?_, hsta, ?_, ?_, ?_, ?_, fun f => h.strings_next f,
    fun hharm c hc => h.blocks_next (by omega) hharm c hc⟩
  · rw [h.mem_eq, encodeAll_append]
    simp
  · rw [h.data_eq, encodeAll_append]
    simp
  · dsimp only
    omega
  · rw [h.split, htake, splitIes_encode_append e _ (by omega)]
    simp
  · rw [forall_mem_append, forall_mem_append, h.inside, forall_mem_singleton,
      forall_mem_singleton]
    exact and_congr Iff.rfl (h.inside_next (by omega))

end Round

lemma parseStep_progress (mem : List UInt8) (n : ℕ) (s : ParseState)
    (h : ∃ done rest, Progress mem n s done rest) :
    (∃ s', parseStep s = some (.inl s') ∧ (∃ done rest, Progress mem n s' done rest) ∧
        s'.datalen < s.datalen) ∨
      ∃ r, parseStep s = some (.inr r) ∧ (r.Safe (mem.take n) ↔ ∀ e ∈ visitedIes (mem.take n), Harmless e) := by
  obtain ⟨done, rest, h⟩ := h
  have hroom := h.room
  unfold parseStep
  by_cases htwo : s.datalen < 2
  · rw [if_pos htwo]
    refine .inr ⟨_, rfl, h.finish ?_ _ rfl rfl ?_⟩
    · have hsht : (rest.take s.datalen).length < 2 := by
        rw [length_take]
        omega
      obtain hnil | ⟨b, hb⟩ : rest.take s.datalen = [] ∨ ∃ b, rest.take s.datalen = [b] := by
        rcases hrest : rest.take s.datalen with _ | ⟨b, _ | ⟨c, l⟩⟩
        · exact .inl rfl
        · exact .inr ⟨b, rfl⟩
        · rw [hrest] at hsht
          simp only [length_cons] at hsht
          omega
      · rw [hnil, splitIes_nil]
      · rw [hb, splitIes_singleton]
    · intro hok
      obtain ⟨b, tail, hrest⟩ : ∃ b tail, rest = b :: tail :=
        exists_cons_of_ne_nil (ne_nil_of_length_pos (by omega))
      refine ⟨of_decide_eq_true hok, tail, ?_⟩
      rw [h.current, h.data_eq, hrest]
      simp
  rw [if_neg htwo]
  obtain ⟨ie, len, more, hrest⟩ : ∃ ie len more, rest = ie :: len :: more := by
    rcases rest with _ | ⟨ie, _ | ⟨len, more⟩⟩
    · simp at hroom
    · simp only [length_singleton] at hroom
      omega
    · exact ⟨ie, len, more, rfl⟩
  have hie : byteAt s.mem s.data = ie := by
    have hbyte := byteAt_terminated done rest 0
    rwa [← h.current, ← h.data_eq, hrest] at hbyte
  have hlenbyte : byteAt s.mem (s.data + 1) = len := by
    rw [h.current, h.data_eq, byteAt_terminated, hrest]
    rfl
  simp only [hie, hlenbyte]
  rw [hrest] at h hroom
  by_cases hlen : len.toNat > s.datalen - 2
  · rw [if_pos hlen]
    refine .inr ⟨_, rfl, h.finish ?_ _ rfl rfl (fun hok => by simp at hok)⟩
    obtain ⟨k, hk⟩ : ∃ k, s.datalen = k + 2 := ⟨s.datalen - 2, by omega⟩
    rw [hk, take_succ_cons, take_succ_cons, splitIes_long]
    rw [length_take]
    omega
  · rw [if_neg hlen]
    exact .inl ⟨_, rfl, ⟨_, _, h.round (by omega) (by omega)⟩, by dsimp only; omega⟩

/-- **Parsing information elements** of a buffer with a writable byte behind it: the parser ends,
and it stays within bounds and keeps the strings and blocks, just if every element that it comes to
is harmless. -/
theorem iaxParseIes_safe_iff (buf : List UInt8) (b : UInt8) (behind : List UInt8) :
    (∃ r, (∀ fuel, buf.length < fuel → iaxParseIes (buf ++ b :: behind) buf.length fuel = some r) ∧
        r.Safe buf) ↔
      ∀ e ∈ visitedIes buf, Harmless e := by
  have htake : (buf ++ b :: behind).take buf.length = buf := by simp
  have hsta := progress_start (buf ++ b :: behind) buf.length (by simp)
  obtain ⟨r, hr, hrun⟩ := iterate_total
    (fun s hs => parseStep_progress (buf ++ b :: behind) buf.length s hs) ⟨_, _, hsta⟩
  rw [htake] at hr
  rw [← hr]
  exact exists_result_iff (Nat.lt_succ_self _) hrun

/-- A token element without a value: the block number is read behind it, and the block length is
2^32 - 1 although the parser returns 0. -/
theorem iaxParseIes_empty_token :
    ∃ r, iaxParseIes ([53, 0] ++ 0 :: []) 2 3 = some r ∧ r.ok = true ∧
      r.visits = [⟨0, 0, [2], []⟩] ∧ (r.ies.ospblocklength 0).toNat = 4294967295 ∧ ¬ r.Safe [53, 0] := by
  refine ⟨_, rfl, rfl, rfl, by decide, ?_⟩
  intro hsafe
  have hin := (hsafe.inside ⟨0, 0, [2], []⟩ (mem_singleton_self _)).1 2 (mem_singleton_self _)
  exact absurd hin (by decide)

end Telephony.Iax2
