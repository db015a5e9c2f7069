import Ego.Lib.Text
import Ego.Persistence.Event

/-!
# The text of a conflict (`persistence/conflict.go:149-307`)

Go strings are bytes here: a persistence id may be any of them.
-/

namespace Ego.Persistence
open Tenancy Lib.Text

def goString (s : String) : Bytes := s.toUTF8.data.toList

structure Strconv where
  quote : Bytes → Bytes
  unquote : Bytes → Option Bytes
  quotedPrefix : Bytes → Option Bytes
  opens : ∀ s, ∃ rest, quote s = 34 :: rest
  unquote_quote : ∀ s, unquote (quote s) = some s
  quotedPrefix_quote : ∀ s rest, quotedPrefix (quote s ++ rest) = some (quote s)
  prefix_of_quotedPrefix : ∀ s quoted, quotedPrefix s = some quoted → quoted <+: s

def escape : Bytes → Bytes
  | [] => [34]
  | b :: bs => if b = 34 ∨ b = 92 then 92 :: b :: escape bs else b :: escape bs

def scan : Bool → Bytes → Option (Bytes × Bytes)
  | _, [] => none
  | true, b :: bs => (scan false bs).map fun r => (b :: r.1, b :: r.2)
  | false, b :: bs =>
    if b = 34 then some ([], [34])
    else if b = 92 then (scan true bs).map fun r => (r.1, b :: r.2)
    else (scan false bs).map fun r => (b :: r.1, b :: r.2)

theorem scan_escape (s rest : Bytes) : scan false (escape s ++ rest) = some (s, escape s) := by
  induction s with
  | nil => rfl
  | cons b bs ih =>
    unfold escape
    split
    · simp [scan, ih]
    · rename_i hb
      obtain ⟨hquote, hescape⟩ := not_or.mp hb
      simp [scan, hquote, hescape, ih]

theorem scan_within {escaped : Bool} {s : Bytes} {r : Bytes × Bytes} (h : scan escaped s = some r) : r.2 <+: s := by
  induction s generalizing escaped r with
  | nil => cases escaped <;> cases h
  | cons b bs ih =>
    have hstep {escaped : Bool} {value : Bytes × Bytes → Bytes}
        (h : (scan escaped bs).map (fun r => (value r, b :: r.2)) = some r) : r.2 <+: b :: bs := by
      obtain ⟨r', hr', rfl⟩ := Option.map_eq_some_iff.mp h
      exact List.cons_prefix_cons.mpr ⟨rfl, ih hr'⟩
    cases escaped with
    | true => exact hstep h
    | false =>
      unfold scan at h
      split at h
      · rename_i hb
        rw [← Option.some.inj h, hb]
        exact ⟨bs, rfl⟩
      · split at h
        · exact hstep h
        · exact hstep h

def Strconv.escaping : Strconv where
  quote s := 34 :: escape s
  unquote s := (scan false s.tail).map Prod.fst
  quotedPrefix s := if [34] <+: s then (scan false s.tail).map fun r => 34 :: r.2 else none
  opens s := ⟨escape s, rfl⟩
  unquote_quote s := by
    have h := scan_escape s []
    rw [List.append_nil] at h
    rw [List.tail_cons, h]
    rfl
  quotedPrefix_quote s rest := by
    rw [if_pos ⟨escape s ++ rest, rfl⟩]
    change (scan false (escape s ++ rest)).map _ = _
    rw [scan_escape]
    rfl
  prefix_of_quotedPrefix s quoted h := by
    split at h
    · rename_i hopens
      obtain ⟨r, hr, rfl⟩ := Option.map_eq_some_iff.mp h
      obtain ⟨tail, rfl⟩ := hopens
      exact List.cons_prefix_cons.mpr ⟨rfl, scan_within hr⟩
    · cases h

def WritePrecondition.Fits : WritePrecondition → Prop
  | .exactRevision n => n < 2 ^ 64
  | _ => True

structure Conflict where
  scope : Scope
  persistenceID : Bytes
  expected : { p : WritePrecondition // p.Fits }
  actualRevision : Option (Fin (2 ^ 64))

def conflictGrammarPrefix := goString "ego: concurrency conflict: grammar=v1, scope="
def conflictTenantScopePrefix := goString "tenant:"
def conflictPersistenceIDField := goString ", persistence_id="
def conflictExpectedField := goString ", expected="
def conflictActualField := goString ", actual="
def conflictUnknownActualToken := goString "unknown"
def conflictUnscopedToken := goString "unscoped"

def WritePrecondition.text : WritePrecondition → Bytes
  | .unconditional => goString "unconditional"
  | .genesis => goString "genesis"
  | .exactRevision n => formatUint n
  | .unspecified => goString "unspecified"

section
variable (q : Strconv)

def formatConflictScope : Scope → Bytes
  | .unscoped => conflictUnscopedToken
  | .tenant id => conflictTenantScopePrefix ++ q.quote (goString id)
  | .unspecified => goString "unspecified"

def actualToken (actual : Option (Fin (2 ^ 64))) : Bytes :=
  (actual.map fun n => formatUint n.val).getD conflictUnknownActualToken

def Conflict.error (e : Conflict) : Bytes :=
  conflictGrammarPrefix ++ (formatConflictScope q e.scope ++ (conflictPersistenceIDField ++ (q.quote e.persistenceID ++
    (conflictExpectedField ++ (e.expected.val.text ++ conflictActualField ++ actualToken e.actualRevision)))))

def cutQuoted (s : Bytes) : Option (Bytes × Bytes) :=
  if [34] <+: s then
    (q.quotedPrefix s).bind fun quoted =>
      (q.unquote quoted).bind fun value =>
        if q.quote value = quoted then some (value, s.drop quoted.length) else none
  else none

def newTenantScope (s : Bytes) : Option Scope :=
  (String.fromUTF8? ⟨s.toArray⟩).bind fun s =>
    match newTenantID s with
    | .ok id => some (.tenant id)
    | .error _ => none

def cutConflictScope (s : Bytes) : Option (Scope × Bytes) :=
  match cutPrefix conflictUnscopedToken s with
  | some rest => some (.unscoped, rest)
  | none =>
    (cutPrefix conflictTenantScopePrefix s).bind fun rest =>
      (cutQuoted q rest).bind fun tenant =>
        (newTenantScope tenant.1).map fun scope => (scope, tenant.2)

def parseCanonicalUint (token : Bytes) : Option (Fin (2 ^ 64)) :=
  (parseUint64 token).bind fun n => if formatUint n.val = token then some n else none

def parsePreconditionToken (token : Bytes) : Option { p : WritePrecondition // p.Fits } :=
  if token = goString "unconditional" then some ⟨.unconditional, trivial⟩
  else if token = goString "genesis" then some ⟨.genesis, trivial⟩
  else (parseCanonicalUint token).map fun n => ⟨.exactRevision n.val, n.isLt⟩

def parseActual (token : Bytes) : Option (Option (Fin (2 ^ 64))) :=
  if token = conflictUnknownActualToken then some none else (parseCanonicalUint token).map some

def parseConflictError (message : Bytes) : Option Conflict :=
  (cutPrefix conflictGrammarPrefix message).bind fun rest =>
    (cutConflictScope q rest).bind fun scope =>
      (cutPrefix conflictPersistenceIDField scope.2).bind fun rest =>
        (cutQuoted q rest).bind fun persistenceID =>
          (cutPrefix conflictExpectedField persistenceID.2).bind fun rest =>
            (cut conflictActualField rest).bind fun parts =>
              (parsePreconditionToken parts.1).bind fun expected =>
                (parseActual parts.2).map fun actual => ⟨scope.1, persistenceID.1, expected, actual⟩

end

theorem parseCanonicalUint_formatUint (n : Fin (2 ^ 64)) : parseCanonicalUint (formatUint n.val) = some n := by
  unfold parseCanonicalUint
  rw [parseUint64_formatUint, Option.bind_some, if_pos rfl]

theorem parseCanonicalUint_eq_some {token : Bytes} {n : Fin (2 ^ 64)} (h : parseCanonicalUint token = some n) :
    formatUint n.val = token := by
  obtain ⟨m, -, h⟩ := Option.bind_eq_some_iff.mp h
  split at h
  · rename_i hformat
    rw [← Option.some.inj h]
    exact hformat
  · cases h

theorem formatUint_ne {n : ℕ} {word : Bytes} (h : ∃ b ∈ word, 57 < b) : formatUint n ≠ word := by
  rintro rfl
  obtain ⟨b, hb, hlt⟩ := h
  exact mem_formatUint hb (.inr hlt)

theorem parsePreconditionToken_text {p : { p : WritePrecondition // p.Fits }} (h : p.val.valid = true) :
    parsePreconditionToken p.val.text = some p := by
  obtain ⟨p, hp⟩ := p
  cases p with
  | unspecified => cases h
  | unconditional | genesis => rfl
  | exactRevision n =>
    have hn := parseCanonicalUint_formatUint ⟨n, hp⟩
    unfold parsePreconditionToken WritePrecondition.text
    rw [if_neg (formatUint_ne (by decide)), if_neg (formatUint_ne (by decide)), hn]
    rfl

theorem parsePreconditionToken_eq_some {token : Bytes} {p : { p : WritePrecondition // p.Fits }}
    (h : parsePreconditionToken token = some p) : p.val.text = token := by
  unfold parsePreconditionToken at h
  split at h
  · rename_i htoken
    rw [← Option.some.inj h, htoken]
    rfl
  · split at h
    · rename_i htoken
      rw [← Option.some.inj h, htoken]
      rfl
    · obtain ⟨n, hn, rfl⟩ := Option.map_eq_some_iff.mp h
      exact parseCanonicalUint_eq_some hn

theorem comma_notMem_text (p : WritePrecondition) : (44 : UInt8) ∉ p.text := by
  cases p with
  | unspecified | unconditional | genesis => decide
  | exactRevision n => exact fun h => mem_formatUint h (.inl (by decide))

theorem parseActual_token (actual : Option (Fin (2 ^ 64))) : parseActual (actualToken actual) = some actual := by
  cases actual with
  | none => exact if_pos rfl
  | some n =>
    unfold parseActual actualToken
    rw [Option.map_some, Option.getD_some, if_neg (formatUint_ne (by decide)), parseCanonicalUint_formatUint]
    rfl

theorem parseActual_eq_some {token : Bytes} {actual : Option (Fin (2 ^ 64))} (h : parseActual token = some actual) :
    actualToken actual = token := by
  unfold parseActual at h
  split at h
  · rename_i htoken
    rw [← Option.some.inj h, htoken]
    rfl
  · obtain ⟨n, hn, rfl⟩ := Option.map_eq_some_iff.mp h
    exact parseCanonicalUint_eq_some hn

section
variable {q : Strconv}

theorem cutQuoted_quote (s rest : Bytes) : cutQuoted q (q.quote s ++ rest) = some (s, rest) := by
  obtain ⟨tail, htail⟩ := q.opens s
  have hopens : [34] <+: q.quote s ++ rest := by
    rw [htail]
    exact ⟨tail ++ rest, rfl⟩
  unfold cutQuoted
  rw [if_pos hopens, q.quotedPrefix_quote, Option.bind_some, q.unquote_quote, Option.bind_some, if_pos rfl,
    List.drop_left]

theorem cutQuoted_eq_some {s value rest : Bytes} (h : cutQuoted q s = some (value, rest)) :
    s = q.quote value ++ rest := by
  unfold cutQuoted at h
  split at h
  · obtain ⟨quoted, hquoted, h⟩ := Option.bind_eq_some_iff.mp h
    obtain ⟨value', -, h⟩ := Option.bind_eq_some_iff.mp h
    split at h
    · rename_i hquote
      obtain ⟨rfl, rfl⟩ := Prod.mk.inj (Option.some.inj h)
      obtain ⟨tail, rfl⟩ := q.prefix_of_quotedPrefix _ _ hquoted
      rw [hquote, List.drop_left]
    · cases h
  · cases h

theorem newTenantScope_goString {id : TenantID} (h : newTenantID id = .ok id) :
    newTenantScope (goString id) = some (.tenant id) := by
  have hid : String.fromUTF8? ⟨(goString id).toArray⟩ = some id := by
    exact dif_pos id.isValidUTF8
  rw [newTenantScope, hid, Option.bind_some, h]

theorem newTenantScope_eq_some {s : Bytes} {scope : Scope} (h : newTenantScope s = some scope) :
    ∃ id, scope = .tenant id ∧ goString id = s ∧ newTenantID id = .ok id := by
  obtain ⟨text, htext, h⟩ := Option.bind_eq_some_iff.mp h
  have hbytes : goString text = s := by
    unfold String.fromUTF8? at htext
    split at htext
    · rw [← Option.some.inj htext]
      rfl
    · cases htext
  split at h
  · rename_i id hid
    obtain rfl := newTenantID_ok hid
    exact ⟨_, (Option.some.inj h).symm, hbytes, hid⟩
  · cases h

theorem cutConflictScope_format {scope : Scope} (h : Built scope) (rest : Bytes) :
    cutConflictScope q (formatConflictScope q scope ++ rest) = some (scope, rest) := by
  cases h with
  | unscoped =>
    unfold cutConflictScope formatConflictScope
    rw [cutPrefix_append]
  | tenant hid =>
    rename_i id
    have hother : cutPrefix conflictUnscopedToken (formatConflictScope q (.tenant id) ++ rest) = none :=
      cutPrefix_of_head_ne (by decide)
    unfold cutConflictScope
    change (cutPrefix conflictTenantScopePrefix
      ((conflictTenantScopePrefix ++ q.quote (goString id)) ++ rest)).bind _ = _
    rw [List.append_assoc, cutPrefix_append, Option.bind_some, cutQuoted_quote, Option.bind_some,
      newTenantScope_goString hid]
    rfl

theorem cutConflictScope_eq_some {s rest : Bytes} {scope : Scope} (h : cutConflictScope q s = some (scope, rest)) :
    Built scope ∧ s = formatConflictScope q scope ++ rest := by
  unfold cutConflictScope at h
  split at h
  · rename_i rest' hrest
    obtain ⟨rfl, rfl⟩ := Prod.mk.inj (Option.some.inj h)
    exact ⟨.unscoped, cutPrefix_eq_some hrest⟩
  · obtain ⟨rest', hp, h⟩ := Option.bind_eq_some_iff.mp h
    obtain ⟨⟨tenant, tail⟩, hquoted, h⟩ := Option.bind_eq_some_iff.mp h
    obtain ⟨scope', hscope, h⟩ := Option.map_eq_some_iff.mp h
    obtain ⟨rfl, rfl⟩ := Prod.mk.inj h
    obtain ⟨id, rfl, rfl, hid⟩ := newTenantScope_eq_some hscope
    refine ⟨.tenant hid, ?_⟩
    rw [cutPrefix_eq_some hp, cutQuoted_eq_some hquoted]
    exact (List.append_assoc _ _ _).symm

theorem parseConflictError_error {e : Conflict} (hscope : Built e.scope) (hexpected : e.expected.val.valid = true) :
    parseConflictError q (e.error q) = some e := by
  unfold parseConflictError Conflict.error
  rw [cutPrefix_append, Option.bind_some, cutConflictScope_format hscope, Option.bind_some]
  rw [cutPrefix_append, Option.bind_some, cutQuoted_quote, Option.bind_some]
  have hcut : cut conflictActualField (e.expected.val.text ++ conflictActualField ++ actualToken e.actualRevision) =
      some (e.expected.val.text, actualToken e.actualRevision) := cut_append (comma_notMem_text _) _
  rw [cutPrefix_append, Option.bind_some, hcut, Option.bind_some, parsePreconditionToken_text hexpected,
    Option.bind_some, parseActual_token]
  rfl

theorem parseConflictError_eq_some {message : Bytes} {e : Conflict} (h : parseConflictError q message = some e) :
    e.error q = message := by
  obtain ⟨rest, hgrammar, h⟩ := Option.bind_eq_some_iff.mp h
  obtain ⟨⟨scope, rest'⟩, hscope, h⟩ := Option.bind_eq_some_iff.mp h
  obtain ⟨rest'', hid, h⟩ := Option.bind_eq_some_iff.mp h
  obtain ⟨⟨persistenceID, rest₃⟩, hquoted, h⟩ := Option.bind_eq_some_iff.mp h
  obtain ⟨rest₄, hexpected, h⟩ := Option.bind_eq_some_iff.mp h
  obtain ⟨⟨before, after⟩, hcut, h⟩ := Option.bind_eq_some_iff.mp h
  obtain ⟨expected, htoken, h⟩ := Option.bind_eq_some_iff.mp h
  obtain ⟨actual, hactual, rfl⟩ := Option.map_eq_some_iff.mp h
  unfold Conflict.error
  rw [parsePreconditionToken_eq_some htoken, parseActual_eq_some hactual, ← cut_eq_some hcut,
    ← cutPrefix_eq_some hexpected, ← cutQuoted_eq_some hquoted, ← cutPrefix_eq_some hid,
    ← (cutConflictScope_eq_some hscope).2, ← cutPrefix_eq_some hgrammar]

end

end Ego.Persistence
