import Ego.Lib.Except
import Ego.Lib.Varint
import Ego.Persistence.Event

/-!
# The legacy state of an event (`migration/migration.go:256-353`)

Events of an old schema have the resulting state in field 5, which the current one does
not know.
-/

namespace Ego.Migration
open Persistence Lib.Varint

inductive Fault where
  | outOfRange
  | unfinished
  deriving DecidableEq, Repr

def sliceFrom (b : Bytes) (n : ℕ) : Except Fault Bytes :=
  if n ≤ b.length then .ok (b.drop n) else .error .outOfRange

def sliceTo (b : Bytes) (n : ℕ) : Except Fault Bytes :=
  if n ≤ b.length then .ok (b.take n) else .error .outOfRange

def varintLoop (v : UInt64) : ℕ → Bytes → Option (UInt64 × ℕ)
  | _, [] => none
  | i, c :: b =>
    if 10 ≤ i then none
    else if c < 0x80 then some (collect v i c, i + 1)
    else varintLoop (collect v i c) (i + 1) b

def consumeVarint (b : Bytes) : Option (UInt64 × ℕ) := varintLoop 0 0 b

def consumeTag (b : Bytes) : Option (UInt32 × ℕ × ℕ) :=
  (consumeVarint b).map fun (v, n) => ((v >>> 3).toUInt32, (v &&& 0x7).toNat, n)

def legacyResultingStateFieldNumber : UInt32 := 5

inductive Turn where
  | found (state : Option Any)
  | stop
  | next (raw : Bytes)
  deriving DecidableEq

def skip (raw : Bytes) (n : ℕ) : Except Fault Turn := (sliceFrom raw n).map .next

section
variable (unmarshal : Bytes → Option Any)

def legacyState (content : Bytes) : Option Any :=
  match unmarshal content with
  | none => none
  | some state => if state.typeUrl ≠ "" then some state else none

def scanPayload (fieldNum : UInt32) (wireType : ℕ) (raw : Bytes) : Except Fault Turn :=
  if wireType = 2 then
    match consumeVarint raw with
    | none => .ok .stop
    | some (length, n) => do
      let raw ← sliceFrom raw n
      if raw.length < length.toNat then .ok .stop
      else if fieldNum = legacyResultingStateFieldNumber then do
        let content ← sliceTo raw length.toNat
        .ok (.found (legacyState unmarshal content))
      else skip raw length.toNat
  else if wireType = 0 then
    match consumeVarint raw with
    | none => .ok .stop
    | some (_, n) => skip raw n
  else if wireType = 5 then
    if raw.length < 4 then .ok .stop else skip raw 4
  else if wireType = 1 then
    if raw.length < 8 then .ok .stop else skip raw 8
  else .ok .stop

def scanField (raw : Bytes) : Except Fault Turn :=
  match consumeTag raw with
  | none => .ok .stop
  | some (fieldNum, wireType, n) => do
    let raw ← sliceFrom raw n
    scanPayload unmarshal fieldNum wireType raw

def scan : ℕ → Bytes → Except Fault (Option Any)
  | _, [] => .ok none
  | 0, _ :: _ => .error .unfinished
  | budget + 1, c :: raw => do
    match ← scanField unmarshal (c :: raw) with
    | .found state => .ok state
    | .stop => .ok none
    | .next rest => scan budget rest

/-- A turn takes at least one byte: there are at most as many turns as bytes. -/
def extractLegacyResultingState (raw : Bytes) : Except Fault (Option Any) := scan unmarshal raw.length raw

end

variable {b : Bytes} {n : ℕ}

theorem sliceFrom_of_le (h : n ≤ b.length) : sliceFrom b n = .ok (b.drop n) := if_pos h

theorem sliceTo_of_le (h : n ≤ b.length) : sliceTo b n = .ok (b.take n) := if_pos h

variable {v : UInt64}

theorem varintLoop_le {w : UInt64} {i : ℕ} (h : varintLoop v i b = some (w, n)) : i + 1 ≤ n ∧
    n ≤ i + b.length := by
  induction b generalizing v i with
  | nil => cases h
  | cons c b ih =>
    unfold varintLoop at h
    rw [List.length_cons]
    split at h
    · cases h
    · split at h
      · obtain ⟨-, rfl⟩ := Prod.mk.inj (Option.some.inj h)
        omega
      · have hrest := ih h
        omega

theorem consumeVarint_le (h : consumeVarint b = some (v, n)) : 1 ≤ n ∧ n ≤ b.length := by
  have hloop := varintLoop_le h
  omega

theorem consumeTag_le {fieldNum : UInt32} {wireType : ℕ} (h : consumeTag b = some (fieldNum, wireType, n)) :
    1 ≤ n ∧ n ≤ b.length := by
  obtain ⟨⟨v, k⟩, hv, heq⟩ := Option.map_eq_some_iff.mp h
  obtain rfl : k = n := (Prod.mk.inj (Prod.mk.inj heq).2).2
  exact consumeVarint_le hv

variable {raw : Bytes}

theorem skip_of_le (h : n ≤ raw.length) : skip raw n = .ok (.next (raw.drop n)) := by
  rw [skip, sliceFrom_of_le h]
  rfl

def Within (raw : Bytes) (result : Except Fault Turn) : Prop :=
  ∃ turn, result = .ok turn ∧ ∀ rest, turn = .next rest → rest.length ≤ raw.length

theorem within_stop (raw : Bytes) : Within raw (.ok .stop) := ⟨.stop, rfl, nofun⟩

theorem within_skip {body : Bytes} (h : n ≤ body.length) (hbody : body.length ≤ raw.length) :
    Within raw (skip body n) := by
  refine ⟨.next (body.drop n), skip_of_le h, fun rest heq => ?_⟩
  cases heq
  rw [List.length_drop]
  omega

section
variable (unmarshal : Bytes → Option Any)

theorem scanPayload_within (fieldNum : UInt32) (wireType : ℕ) (raw : Bytes) :
    Within raw (scanPayload unmarshal fieldNum wireType raw) := by
  unfold scanPayload
  split
  · cases hlength : consumeVarint raw with
    | none => exact within_stop raw
    | some length =>
      simp only [sliceFrom_of_le (consumeVarint_le hlength).2, bind, Except.bind]
      split
      · exact within_stop raw
      · rename_i hfits
        rw [sliceTo_of_le (Nat.le_of_not_lt hfits)]
        split
        · exact ⟨.found _, rfl, nofun⟩
        · exact within_skip (Nat.le_of_not_lt hfits) (by simp)
  · split
    · cases hvalue : consumeVarint raw with
      | none => exact within_stop raw
      | some value => exact within_skip (consumeVarint_le hvalue).2 (Nat.le_refl _)
    · split
      · split
        · exact within_stop raw
        · rename_i hfits
          exact within_skip (Nat.le_of_not_lt hfits) (Nat.le_refl _)
      · split
        · split
          · exact within_stop raw
          · rename_i hfits
            exact within_skip (Nat.le_of_not_lt hfits) (Nat.le_refl _)
        · exact within_stop raw

theorem scanField_of_tag {fieldNum : UInt32} {wireType : ℕ} (htag : consumeTag raw = some (fieldNum, wireType, n)) :
    scanField unmarshal raw = scanPayload unmarshal fieldNum wireType (raw.drop n) := by
  unfold scanField
  rw [htag]
  simp only [sliceFrom_of_le (consumeTag_le htag).2]
  rfl

theorem scanField_ok (raw : Bytes) :
    ∃ turn, scanField unmarshal raw = .ok turn ∧ ∀ rest, turn = .next rest → rest.length < raw.length := by
  cases htag : consumeTag raw with
  | none => exact ⟨.stop, by rw [scanField, htag], nofun⟩
  | some tag =>
    obtain ⟨fieldNum, wireType, n⟩ := tag
    obtain ⟨turn, hturn, hrest⟩ := scanPayload_within unmarshal fieldNum wireType (raw.drop n)
    refine ⟨turn, (scanField_of_tag unmarshal htag).trans hturn, fun rest heq => ?_⟩
    have hle := hrest rest heq
    have htaken := consumeTag_le htag
    rw [List.length_drop] at hle
    omega

theorem scan_ok {budget : ℕ} (h : raw.length ≤ budget) : ∃ state, scan unmarshal budget raw = .ok state := by
  induction budget generalizing raw with
  | zero =>
    rw [List.length_eq_zero_iff.mp (Nat.le_zero.mp h)]
    exact ⟨none, rfl⟩
  | succ budget ih =>
    cases raw with
    | nil => exact ⟨none, rfl⟩
    | cons c raw =>
      obtain ⟨turn, hturn, hrest⟩ := scanField_ok unmarshal (c :: raw)
      unfold scan
      rw [hturn]
      cases turn with
      | found state => exact ⟨state, rfl⟩
      | stop => exact ⟨none, rfl⟩
      | next rest =>
        have hlt := hrest rest rfl
        exact ih (by omega)

end

def IsVarint64 (n : ℕ) (bs : Bytes) : Prop := IsVarint n bs ∧ bs.length ≤ 10

inductive Payload where
  | varint (n : ℕ)
  | fixed64 (b : Bytes)
  | delimited (content : Bytes)
  | fixed32 (b : Bytes)

def Payload.wireType : Payload → ℕ
  | .varint _ => 0
  | .fixed64 _ => 1
  | .delimited _ => 2
  | .fixed32 _ => 5

inductive Payload.IsWritten : Payload → Bytes → Prop
  | varint {n : ℕ} {bs : Bytes} (h : IsVarint64 n bs) : IsWritten (.varint n) bs
  | fixed64 {b : Bytes} (h : b.length = 8) : IsWritten (.fixed64 b) b
  | delimited {content bs : Bytes} (h : IsVarint64 content.length bs) (hfits : content.length < 2 ^ 64) :
      IsWritten (.delimited content) (bs ++ content)
  | fixed32 {b : Bytes} (h : b.length = 4) : IsWritten (.fixed32 b) b

structure Field where
  number : ℕ
  payload : Payload

inductive AreWritten : List Field → Bytes → Prop
  | nil : AreWritten [] []
  | cons {f : Field} {fs : List Field} {tag payload rest : Bytes} (hnumber : f.number < 2 ^ 29)
      (htag : IsVarint64 (f.number * 8 + f.payload.wireType) tag) (hpayload : f.payload.IsWritten payload)
      (hrest : AreWritten fs rest) : AreWritten (f :: fs) (tag ++ payload ++ rest)

theorem varintLoop_append {bs : Bytes} (h : IsVarint n bs) (rest : Bytes) {i : ℕ}
    (hv : v.toNat < 2 ^ (i * 7)) (hi : i + bs.length ≤ 10) :
    ∃ w : UInt64, varintLoop v i (bs ++ rest) = some (w, i + bs.length) ∧
      w.toNat = (v.toNat + 2 ^ (i * 7) * n) % 2 ^ 64 := by
  induction h generalizing v i with
  | @last b hb =>
    have hlt : i < 10 := by
      rw [List.length_singleton] at hi
      omega
    refine ⟨collect v i b, ?_, ?_⟩
    · rw [List.singleton_append, varintLoop, if_neg (by omega), if_pos (UInt8.lt_iff_toNat_lt.mpr hb)]
      rfl
    · rw [toNat_collect b hlt hv, Nat.mod_eq_of_lt hb]
  | @more b n bs hb _ ih =>
    rw [List.length_cons] at hi
    have hlt : i < 10 := by omega
    obtain ⟨w, hloop, hw⟩ := ih (collect_lt b hlt hv) (by omega)
    refine ⟨w, ?_, ?_⟩
    · rw [List.cons_append, varintLoop, if_neg (by omega),
        if_neg (fun hlt => Nat.not_lt.mpr hb (UInt8.lt_iff_toNat_lt.mp hlt)),
        hloop, List.length_cons]
      congr 2
      omega
    · have hpow : 2 ^ ((i + 1) * 7) = 2 ^ (i * 7) * 128 := by rw [Nat.add_mul, Nat.pow_add]
      rw [hw, toNat_collect b hlt hv, Nat.mod_add_mod, hpow, Nat.mul_add, Nat.mul_assoc, Nat.add_assoc]

theorem consumeVarint_append {bs : Bytes} (h : IsVarint64 n bs) (rest : Bytes) :
    ∃ w : UInt64, consumeVarint (bs ++ rest) = some (w, bs.length) ∧ w.toNat = n % 2 ^ 64 := by
  obtain ⟨w, hloop, hw⟩ := varintLoop_append h.1 rest (v := 0) (i := 0) (by decide) (by simpa using h.2)
  rw [Nat.zero_add] at hloop
  exact ⟨w, hloop, by simpa using hw⟩

theorem consumeTag_append {number wireType : ℕ} {tag : Bytes} (h : IsVarint64 (number * 8 + wireType) tag)
    (hwire : wireType < 8) (rest : Bytes) :
    consumeTag (tag ++ rest) = some (UInt32.ofNat number, wireType, tag.length) := by
  obtain ⟨w, hw, hvalue⟩ := consumeVarint_append h rest
  have hfield : (w >>> 3).toUInt32 = UInt32.ofNat number := by
    apply UInt32.toNat.inj
    rw [UInt64.toNat_toUInt32, UInt64.toNat_shiftRight, UInt32.toNat_ofNat', hvalue, Nat.shiftRight_eq_div_pow,
      show (3 : UInt64).toNat % 64 = 3 from rfl]
    omega
  have htype : (w &&& 0x7).toNat = wireType := by
    rw [UInt64.toNat_and, hvalue, show (0x7 : UInt64).toNat = 2 ^ 3 - 1 from rfl, Nat.and_two_pow_sub_one_eq_mod]
    omega
  simp only [consumeTag, hw, Option.map_some, hfield, htype]

def Field.legacyContent (f : Field) : Option Bytes :=
  match f.payload with
  | .delimited content => if f.number = 5 then some content else none
  | .varint _ | .fixed64 _ | .fixed32 _ => none

section
variable (unmarshal : Bytes → Option Any)

def Field.turn (f : Field) (rest : Bytes) : Turn :=
  match f.legacyContent with
  | none => .next rest
  | some content => .found (legacyState unmarshal content)

theorem ofNat_eq_legacy {number : ℕ} (h : number < 2 ^ 29) :
    UInt32.ofNat number = legacyResultingStateFieldNumber ↔ number = 5 := by
  rw [← UInt32.toNat_inj, UInt32.toNat_ofNat', Nat.mod_eq_of_lt (by omega)]
  rfl

theorem scanPayload_append {f : Field} {payload : Bytes} (hnumber : f.number < 2 ^ 29) (h : f.payload.IsWritten payload)
    (rest : Bytes) :
    scanPayload unmarshal (UInt32.ofNat f.number) f.payload.wireType (payload ++ rest) =
      .ok (f.turn unmarshal rest) := by
  obtain ⟨number, written⟩ := f
  cases h with
  | varint hn =>
    obtain ⟨w, hw, -⟩ := consumeVarint_append hn rest
    simp [scanPayload, Payload.wireType, hw, skip_of_le, Field.turn, Field.legacyContent]
  | fixed64 hlen | fixed32 hlen =>
    simp [scanPayload, Payload.wireType, skip_of_le, hlen, Field.turn, Field.legacyContent]
  | @delimited content bs hn hfits =>
    obtain ⟨w, hw, hvalue⟩ := consumeVarint_append hn (content ++ rest)
    rw [Nat.mod_eq_of_lt hfits] at hvalue
    have hbody : sliceFrom (bs ++ (content ++ rest)) bs.length = .ok (content ++ rest) := by
      rw [sliceFrom_of_le (by simp), List.drop_left]
    have hshort : ¬ (content ++ rest).length < w.toNat := by
      rw [hvalue, List.length_append]
      omega
    have hcontent : sliceTo (content ++ rest) w.toNat = .ok content := by
      rw [hvalue, sliceTo_of_le (by simp), List.take_left]
    have hskip : skip (content ++ rest) w.toNat = .ok (.next rest) := by
      rw [hvalue, skip_of_le (by simp), List.drop_left]
    rw [List.append_assoc, scanPayload, Payload.wireType, if_pos rfl, hw]
    simp only [hbody, bind, Except.bind]
    rw [if_neg hshort, hcontent, hskip]
    by_cases h5 : number = 5
    · rw [if_pos ((ofNat_eq_legacy hnumber).mpr h5)]
      simp only [Field.turn, Field.legacyContent, if_pos h5]
    · rw [if_neg (mt (ofNat_eq_legacy hnumber).mp h5)]
      simp only [Field.turn, Field.legacyContent, if_neg h5]

theorem Payload.wireType_lt (payload : Payload) : payload.wireType < 8 := by
  cases payload <;> simp [Payload.wireType]

theorem scanField_append {f : Field} {tag payload : Bytes} (hnumber : f.number < 2 ^ 29)
    (htag : IsVarint64 (f.number * 8 + f.payload.wireType) tag) (hpayload : f.payload.IsWritten payload)
    (rest : Bytes) :
    scanField unmarshal (tag ++ payload ++ rest) = .ok (f.turn unmarshal rest) := by
  have hread := consumeTag_append htag f.payload.wireType_lt (payload ++ rest)
  rw [List.append_assoc, scanField_of_tag unmarshal hread, List.drop_left]
  exact scanPayload_append unmarshal hnumber hpayload rest

theorem scan_written {fs : List Field} (h : AreWritten fs raw) {budget : ℕ} (hbudget : raw.length ≤ budget) :
    scan unmarshal budget raw = .ok ((fs.findSome? Field.legacyContent).bind (legacyState unmarshal)) := by
  induction h generalizing budget with
  | nil =>
    unfold scan
    rfl
  | @cons f fs tag payload rest hnumber htag hpayload _ ih =>
    obtain ⟨c, tag, rfl⟩ := List.exists_cons_of_ne_nil htag.1.ne_nil
    have hfield := scanField_append unmarshal hnumber htag hpayload rest
    cases budget with
    | zero => simp at hbudget
    | succ budget =>
      have hrest : rest.length ≤ budget := by
        simp only [List.cons_append, List.length_cons, List.length_append] at hbudget
        omega
      simp only [List.cons_append] at hfield ⊢
      rw [scan, hfield, Field.turn]
      cases hcontent : f.legacyContent with
      | none =>
        rw [List.findSome?_cons_of_isNone (by rw [hcontent]; rfl)]
        exact ih hrest
      | some content =>
        rw [List.findSome?_cons, hcontent]
        rfl

theorem legacyState_eq (content : Bytes) :
    legacyState unmarshal content = (unmarshal content).filter (fun state => state.typeUrl ≠ "") := by
  rw [legacyState]
  cases unmarshal content with
  | none => rfl
  | some state => simp [Option.filter]

/-- The scan reads within the bytes and ends, whatever they are; of well-formed fields it
returns the message in the one that is the state, if it decodes to one with a type. -/
theorem extractLegacyResultingState_exact :
    (∀ raw, ∃ state, extractLegacyResultingState unmarshal raw = .ok state) ∧
    ∀ before content after raw, AreWritten (before ++ ⟨5, .delimited content⟩ :: after) raw →
      (∀ f ∈ before ++ after, f.legacyContent = none) →
      extractLegacyResultingState unmarshal raw =
        .ok ((unmarshal content).filter (fun state => state.typeUrl ≠ "")) := by
  refine ⟨fun raw => scan_ok unmarshal (Nat.le_refl _), fun before content after raw hraw hother => ?_⟩
  have hbefore : before.findSome? Field.legacyContent = none :=
    List.findSome?_eq_none_iff.mpr fun f hf => hother f (List.mem_append_left _ hf)
  rw [extractLegacyResultingState, scan_written unmarshal hraw (Nat.le_refl _), List.findSome?_append, hbefore,
    ← legacyState_eq]
  rfl

end

def shortField (tag : UInt8) : Bytes → Option (Bytes × Bytes)
  | t :: n :: rest =>
    if t = tag ∧ n < 128 ∧ n.toNat ≤ rest.length then some (rest.take n.toNat, rest.drop n.toNat) else none
  | _ => none

/-- Reads an `Any` with both fields, in order, an ASCII type and lengths of one byte. -/
def unmarshalShortAny (raw : Bytes) : Option Any := do
  let (url, raw) ← shortField 0x0a raw
  let (value, raw) ← shortField 0x12 raw
  if raw = [] ∧ url.all (· < 128) then
    some ⟨String.ofList (url.map fun b => Char.ofNat b.toNat), value⟩
  else none

def legacyAny : Bytes := [0x0a, 0x01, 0x54] ++ [0x12, 0x02, 1, 2]

def unknownFields : Bytes :=
  [0x18] ++ [0xac, 0x02] ++ ([0x2a] ++ ([0x87, 0x00] ++ legacyAny) ++ ([0x0d] ++ [0, 0, 0, 7] ++ []))

theorem unknownFields_written :
    AreWritten ([⟨3, .varint 300⟩] ++ ⟨5, .delimited legacyAny⟩ :: [⟨1, .fixed32 [0, 0, 0, 7]⟩])
      unknownFields := by
  have hvalue : IsVarint64 300 [0xac, 0x02] :=
    ⟨.more (b := 0xac) (n := 2) (by decide) (.last (b := 2) (by decide)), by decide⟩
  have hlength : IsVarint64 7 [0x87, 0x00] :=
    ⟨.more (b := 0x87) (n := 0) (by decide) (.last (b := 0) (by decide)), by decide⟩
  have hfirst : IsVarint64 24 [0x18] := ⟨.last (b := 0x18) (by decide), by decide⟩
  have hstate : IsVarint64 42 [0x2a] := ⟨.last (b := 0x2a) (by decide), by decide⟩
  have hlast : IsVarint64 13 [0x0d] := ⟨.last (b := 0x0d) (by decide), by decide⟩
  refine .cons ?_ hfirst (.varint hvalue)
    (.cons ?_ hstate (.delimited hlength ?_) (.cons ?_ hlast (.fixed32 rfl) .nil))
  all_goals decide

theorem extractLegacyResultingState_exact_unknownFields :
    extractLegacyResultingState unmarshalShortAny unknownFields = .ok (some ⟨"T", [1, 2]⟩) :=
  (extractLegacyResultingState_exact _).2 _ _ _ _ unknownFields_written (by decide)

end Ego.Migration
