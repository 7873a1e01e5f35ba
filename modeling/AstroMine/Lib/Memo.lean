import AstroMine.Lib.Dict

/-!
# Remembered results

A cache keeps the result of every key it was asked for. Where the key does not determine the result,
the first request of a key that returned one decides for all later ones.

Results:
* `serve_eq_first`: a request has the result of the first request of its key that returned one.
-/

namespace AstroMine.Memo

variable {α κ ν ε : Type} [DecidableEq κ] (key : α → κ) (compute : α → Except ε ν)

/-- A request: what is kept of its key, or else its own result, which is kept if it is one. -/
def request (cache : Dict κ ν) (a : α) : Except ε ν × Dict κ ν :=
  match cache.get? (key a) with
  | some v => (.ok v, cache)
  | none =>
    match compute a with
    | .ok v => (.ok v, cache.set (key a) v)
    | .error e => (.error e, cache)

/-- Requests one after another. -/
def serve (cache : Dict κ ν) : List α → List (Except ε ν)
  | [] => []
  | a :: as => (request key compute cache a).1 :: serve (request key compute cache a).2 as

/-- A request of the key that returns a result. -/
def returns (k : κ) (a : α) : Bool := decide (key a = k) && (compute a).toOption.isSome

/-- The first of the requests of a key that returned a result. -/
def firstOf (asked : List α) (k : κ) : Option α := asked.find? (returns key compute k)

/-- The result of a request after others, by the first request of its key that returned one. -/
def firstResult (asked : List α) (a : α) : Except ε ν :=
  match firstOf key compute asked (key a) with
  | some b => compute b
  | none => compute a

/-- Every request with those in front of it. -/
def inOrder (asked : List α) : List α → List (Except ε ν)
  | [] => []
  | a :: as => firstResult key compute asked a :: inOrder (asked ++ [a]) as

/-- The cache has of every key the first result. -/
def Holds (cache : Dict κ ν) (asked : List α) : Prop :=
  ∀ k, cache.get? k = (firstOf key compute asked k).bind fun b => (compute b).toOption

variable {key compute}

theorem returns_eq_true {k : κ} {a : α} :
    returns key compute k a = true ↔ key a = k ∧ ∃ v, compute a = .ok v := by
  unfold returns
  rw [Bool.and_eq_true, decide_eq_true_eq]
  refine and_congr_right fun _ => ?_
  cases compute a with
  | error e => exact ⟨fun h => (by cases h), fun ⟨_, h⟩ => (by cases h)⟩
  | ok v => exact ⟨fun _ => ⟨v, rfl⟩, fun _ => rfl⟩

theorem firstOf_append (asked : List α) (a : α) (k : κ) :
    firstOf key compute (asked ++ [a]) k =
      (firstOf key compute asked k).or (if returns key compute k a then some a else none) := by
  unfold firstOf
  rw [List.find?_append, List.find?_singleton]

theorem firstOf_spec {asked : List α} {k : κ} {b : α} (h : firstOf key compute asked k = some b) :
    key b = k ∧ ∃ v, compute b = .ok v :=
  returns_eq_true.mp (List.find?_some h)

/-- **Step.** A request has the first result of its key, and leaves the cache with it. -/
theorem Holds.request {cache : Dict κ ν} {asked : List α} (h : Holds key compute cache asked)
    (a : α) : (request key compute cache a).1 = firstResult key compute asked a ∧
      Holds key compute (request key compute cache a).2 (asked ++ [a]) := by
  have hkey := h (key a)
  have hother : ∀ k, key a ≠ k →
      firstOf key compute (asked ++ [a]) k = firstOf key compute asked k := by
    intro k hk
    rw [firstOf_append, if_neg fun hret => hk (returns_eq_true.mp hret).1, Option.or_none]
  unfold Memo.request firstResult
  cases hfirst : firstOf key compute asked (key a) with
  | some b =>
    obtain ⟨-, v, hv⟩ := firstOf_spec hfirst
    rw [hfirst, Option.bind_some, hv] at hkey
    rw [hkey]
    refine ⟨hv.symm, fun k => (h k).trans ?_⟩
    by_cases hk : key a = k
    · subst hk
      rw [firstOf_append, hfirst]
      rfl
    · rw [hother k hk]
  | none =>
    rw [hfirst, Option.bind_none] at hkey
    rw [hkey]
    cases hv : compute a with
    | error e =>
      refine ⟨rfl, fun k => (h k).trans ?_⟩
      rw [firstOf_append, if_neg, Option.or_none]
      intro hret
      obtain ⟨-, w, hw⟩ := returns_eq_true.mp hret
      rw [hv] at hw
      cases hw
    | ok v =>
      refine ⟨rfl, fun k => ?_⟩
      change (cache.set (key a) v).get? k = _
      rw [Dict.get?_set]
      by_cases hk : key a = k
      · subst hk
        have hret : returns key compute (key a) a = true := returns_eq_true.mpr ⟨rfl, v, hv⟩
        rw [if_pos rfl, firstOf_append, hfirst, Option.none_or, if_pos hret, Option.bind_some, hv]
        rfl
      · rw [if_neg fun heq => hk heq.symm, hother k hk, h k]

theorem Holds.serve {cache : Dict κ ν} {asked : List α} (h : Holds key compute cache asked)
    (as : List α) : serve key compute cache as = inOrder key compute asked as := by
  induction as generalizing cache asked with
  | nil => rfl
  | cons a as ih =>
    obtain ⟨hresult, hnext⟩ := h.request a
    rw [Memo.serve, inOrder, hresult, ih hnext]

theorem holds_empty : Holds key compute .empty [] := fun k => Dict.get?_empty k

/-- **Run.** A request has the result of the first request of its key that returned one. -/
theorem serve_eq_first (as : List α) :
    serve key compute .empty as = inOrder key compute [] as :=
  holds_empty.serve as

/-- A request has the result of some request of its kind. -/
theorem exists_of_mem_inOrder {asked as : List α} {r : Except ε ν}
    (h : r ∈ inOrder key compute asked as) : ∃ b, compute b = r := by
  induction as generalizing asked with
  | nil => cases h
  | cons a as ih =>
    rcases List.mem_cons.mp h with rfl | h
    · unfold firstResult
      cases firstOf key compute asked (key a) with
      | none => exact ⟨a, rfl⟩
      | some b => exact ⟨b, rfl⟩
    · exact ih h

end AstroMine.Memo
