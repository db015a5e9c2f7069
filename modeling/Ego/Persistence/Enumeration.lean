import Ego.Persistence.Listing

/-! # Listing until the token is empty (`persistence/events_store.go:129-142`) -/

namespace Ego.Persistence

def listAll (page : String → Except Err (List String × String)) : ℕ → String →
    Option (Except Err (List String))
  | 0, _ => none
  | calls + 1, token =>
    match page token with
    | .error err => some (.error err)
    | .ok (ids, next) => if next = "" then some (.ok ids) else (listAll page calls next).map (·.map (ids ++ ·))

def Enumerates (page : String → Except Err (List String × String)) (ids : String → Prop) : Prop :=
  ∃ calls listed, listAll page calls "" = some (.ok listed) ∧ listed.Nodup ∧ ∀ id, id ∈ listed ↔ ids id

variable {page : String → Except Err (List String × String)}

theorem listAll_of_last {ids : List String} {token : String} (h : page token = .ok (ids, "")) (calls : ℕ) :
    listAll page (calls + 1) token = some (.ok ids) := by
  rw [listAll, h]
  rfl

theorem not_enumerates {err : Err} (h : page "" = .error err) (ids : String → Prop) : ¬ Enumerates page ids := by
  rintro ⟨calls, listed, hlisted, -⟩
  cases calls with
  | zero => cases hlisted
  | succ calls =>
    rw [listAll, h] at hlisted
    cases Option.some.inj hlisted

theorem listAll_eq_enumerate {total : String → List String × String}
    (hpage : ∀ token, page token = .ok (total token))
    (hend : ∀ token, (total token).1 = [] → (total token).2 = "") (calls : ℕ) (token : String) :
    listAll page calls token = (enumerate total calls token).map .ok := by
  induction calls generalizing token with
  | zero => rfl
  | succ calls ih =>
    rw [listAll, hpage]
    unfold enumerate
    by_cases hnext : (total token).2 = ""
    · rw [if_pos (.inl hnext)]
      exact if_pos hnext
    · rw [if_neg (not_or.mpr ⟨hnext, fun hnil => hnext (hend token hnil)⟩)]
      refine (if_neg hnext).trans ?_
      rw [ih, Option.map_map, Option.map_map]
      rfl

theorem IsListing.enumerates {ids : List String} {n : ℕ} {total : String → List String × String}
    (h : IsListing ids n total) (hn : 0 < n) (hsorted : ids.Pairwise (· < ·)) (hne : "" ∉ ids)
    (hpage : ∀ token, page token = .ok (total token))
    (hend : ∀ token, (total token).1 = [] → (total token).2 = "") :
    Enumerates page (· ∈ ids) := by
  refine ⟨ids.length + 1, ids, ?_, hsorted.imp ne_of_lt, fun _ => Iff.rfl⟩
  have hall : afterToken ids "" = ids := if_pos rfl
  rw [listAll_eq_enumerate hpage hend, h.enumerate hn hsorted hne _ "" (.inl rfl) (by rw [hall]; omega), hall]
  rfl

end Ego.Persistence
