import AstroMine.Lib.Dict

/-!
# Named generators

Consumers draw from generators that are found by their names, seeded on the first request and kept
for the next ones. A draw is any function of the generator: it gives a value, and the generator as
it leaves it. The log holds every draw, with its consumer, in the order of the run.

Results:
* `owned_draw`: what one draw preserves, where no two consumers use one name: every consumer has
  the values it would draw alone from a generator of its own.
* `values_prefix_of_owned`: two runs in which a consumer makes the same draws give it the same
  values.
-/

namespace AstroMine.NamedStreams

variable {ι κ γ β : Type} [DecidableEq ι] [DecidableEq κ]

/-- A draw of a run: who, what it does with its generator, and the value it is given. -/
structure Draw (ι γ β : Type) where
  consumer : ι
  call : γ → β × γ
  value : β

/-- The generators seeded so far, and the draws made so far. -/
structure Streams (ι κ γ β : Type) where
  gens : Dict κ γ
  log : List (Draw ι γ β)

/-- Nothing seeded, nothing drawn. -/
def Streams.init : Streams ι κ γ β := ⟨Dict.empty, []⟩

/-- The generator of a name: the one in use, or a fresh one. -/
def Streams.gen (fresh : κ → γ) (st : Streams ι κ γ β) (name : κ) : γ :=
  (st.gens.get? name).getD (fresh name)

/-- A consumer draws from a name. -/
def Streams.draw (fresh : κ → γ) (st : Streams ι κ γ β) (i : ι) (name : κ) (call : γ → β × γ) :
    Streams ι κ γ β where
  gens := st.gens.set name (call (st.gen fresh name)).2
  log := st.log ++ [⟨i, call, (call (st.gen fresh name)).1⟩]

/-- The draws of one consumer. -/
def drawsOf (i : ι) (log : List (Draw ι γ β)) : List (Draw ι γ β) :=
  log.filter fun d => d.consumer = i

/-- What one consumer does with its generator, draw after draw. -/
def callsOf (i : ι) (log : List (Draw ι γ β)) : List (γ → β × γ) := (drawsOf i log).map Draw.call

/-- The values one consumer is given, draw after draw. -/
def valuesOf (i : ι) (log : List (Draw ι γ β)) : List β := (drawsOf i log).map Draw.value

/-- The draws of one generator that nobody else uses: their values, and the generator left. -/
def replay (g : γ) : List (γ → β × γ) → List β × γ
  | [] => ([], g)
  | call :: calls => ((call g).1 :: (replay (call g).2 calls).1, (replay (call g).2 calls).2)

/-- The consumers of the list have drawn, each of them alone from a generator of its own. -/
structure Owned (fresh : κ → γ) (users : List (ι × κ)) (st : Streams ι κ γ β) : Prop where
  mem : ∀ d ∈ st.log, ∃ u ∈ users, d.consumer = u.1
  alone : ∀ u ∈ users,
    replay (fresh u.2) (callsOf u.1 st.log) = (valuesOf u.1 st.log, st.gen fresh u.2)

/-- Each consumer of the list has one name, and each name one consumer. -/
def Apart (users : List (ι × κ)) : Prop :=
  ∀ u ∈ users, ∀ v ∈ users, u.1 = v.1 ↔ u.2 = v.2

variable {fresh : κ → γ} {users : List (ι × κ)} {st : Streams ι κ γ β}

theorem replay_append (g : γ) (calls : List (γ → β × γ)) (call : γ → β × γ) :
    replay g (calls ++ [call]) = ((replay g calls).1 ++ [(call (replay g calls).2).1],
      (call (replay g calls).2).2) := by
  induction calls generalizing g with
  | nil => rfl
  | cons c calls ih => simp only [List.cons_append, replay, ih]

/-- A longer list of draws gives the values of a shorter one first. -/
theorem replay_prefix (g : γ) {calls calls' : List (γ → β × γ)} (h : calls <+: calls') :
    (replay g calls).1 <+: (replay g calls').1 := by
  induction calls generalizing g calls' with
  | nil => exact List.nil_prefix
  | cons c calls ih =>
    obtain ⟨rest, rfl⟩ := h
    rw [List.cons_append, replay, replay]
    exact List.cons_prefix_cons.mpr ⟨rfl, ih _ (List.prefix_append _ _)⟩

omit [DecidableEq ι] in
theorem gen_draw (i : ι) (name : κ) (call : γ → β × γ) (name' : κ) :
    (st.draw fresh i name call).gen fresh name' =
      if name' = name then (call (st.gen fresh name)).2 else st.gen fresh name' := by
  rw [Streams.gen, Streams.draw, Dict.get?_set]
  split_ifs with h
  · rfl
  · rfl

theorem drawsOf_append_self (i : ι) (log : List (Draw ι γ β)) (call : γ → β × γ) (value : β) :
    drawsOf i (log ++ [⟨i, call, value⟩]) = drawsOf i log ++ [⟨i, call, value⟩] := by
  simp [drawsOf]

theorem drawsOf_append_of_ne {i j : ι} (h : j ≠ i) (log : List (Draw ι γ β)) (call : γ → β × γ)
    (value : β) : drawsOf i (log ++ [⟨j, call, value⟩]) = drawsOf i log := by
  simp [drawsOf, h]

theorem owned_init : Owned fresh users (Streams.init : Streams ι κ γ β) := by
  refine ⟨?_, ?_⟩
  · intro d hd
    cases hd
  · intro u _
    rfl

/-- What a draw preserves: the one who draws goes on alone, and the others do not notice. -/
theorem owned_draw (hapart : Apart users) (h : Owned fresh users st) {u : ι × κ} (hu : u ∈ users)
    (call : γ → β × γ) : Owned fresh users (st.draw fresh u.1 u.2 call) := by
  refine ⟨?_, ?_⟩
  · intro d hd
    rcases List.mem_append.mp hd with hd | hd
    · exact h.mem d hd
    · rw [List.mem_singleton.mp hd]
      exact ⟨u, hu, rfl⟩
  · intro v hv
    have hold := h.alone v hv
    rw [gen_draw]
    by_cases hself : u.1 = v.1
    · have hname : v.2 = u.2 := ((hapart u hu v hv).mp hself).symm
      rw [if_pos hname, callsOf, valuesOf, Streams.draw, hself, drawsOf_append_self,
        List.map_append, List.map_append, List.map_singleton, List.map_singleton, replay_append,
        ← callsOf, hold, hname]
      rfl
    · have hname : v.2 ≠ u.2 := fun heq => hself ((hapart u hu v hv).mpr heq.symm)
      rw [if_neg hname, callsOf, valuesOf, Streams.draw, drawsOf_append_of_ne hself]
      exact hold

/-- Who is not in the list is given nothing. -/
theorem values_of_notMem (h : Owned fresh users st) {i : ι} (hi : ∀ u ∈ users, i ≠ u.1) :
    valuesOf i st.log = [] := by
  rw [valuesOf, drawsOf, List.map_eq_nil_iff, List.filter_eq_nil_iff]
  intro d hd heq
  obtain ⟨u, hu, hd⟩ := h.mem d hd
  exact hi u hu ((of_decide_eq_true heq).symm.trans hd)

/-- A consumer that makes the same draws in two runs is given the same values. -/
theorem values_prefix_of_owned {users' : List (ι × κ)} {st' : Streams ι κ γ β}
    (h : Owned fresh users st) (h' : Owned fresh users' st') {u : ι × κ} (hu : u ∈ users)
    (hu' : u ∈ users') (hcalls : callsOf u.1 st.log <+: callsOf u.1 st'.log) :
    valuesOf u.1 st.log <+: valuesOf u.1 st'.log := by
  have hvalues : (replay (fresh u.2) (callsOf u.1 st.log)).1 = valuesOf u.1 st.log :=
    congrArg Prod.fst (h.alone u hu)
  have hvalues' : (replay (fresh u.2) (callsOf u.1 st'.log)).1 = valuesOf u.1 st'.log :=
    congrArg Prod.fst (h'.alone u hu')
  rw [← hvalues, ← hvalues']
  exact replay_prefix _ hcalls

end AstroMine.NamedStreams
